/-
`source.rs` on Windows: `FileSource::read_exact_at` fills the buffer by repeated `seek_read`s, each of which
may stop short. However short they are, the loop ends with the range that `SliceSource` reads, or fails when
it does.
-/
import Veilite.Core.Source

namespace Veilite.Core

open Buffer

/-- A range the slice has is copied from it. -/
theorem SliceSource.readExactAt_eq {content output : Bytes} {offset : Nat} (hlt : content.length < 2 ^ 64)
    (h : offset + output.length ≤ content.length) :
    SliceSource.readExactAt content offset output = ⟨.ok (), (content.drop offset).take output.length⟩ := by
  unfold SliceSource.readExactAt
  simp only [tryFrom_eq_some (show offset < 2 ^ 64 by omega),
    checkedAdd_eq_some (show offset + output.length < 2 ^ 64 by omega), slice_eq_some (Nat.le_add_right ..) h,
    Nat.add_sub_cancel_left]

/-- A range past its end is refused. -/
theorem SliceSource.readExactAt_of_lt {content output : Bytes} {offset : Nat}
    (h : content.length < offset + output.length) :
    ∃ e, (SliceSource.readExactAt content offset output).result = .error e := by
  unfold SliceSource.readExactAt
  rcases hstart : tryFrom 64 offset with _ | start
  · exact ⟨_, rfl⟩
  obtain ⟨-, rfl⟩ := tryFrom_eq_some_iff.1 hstart
  simp only
  rcases hstop : checkedAdd 64 offset output.length with _ | stop
  · exact ⟨_, rfl⟩
  obtain ⟨-, rfl⟩ := checkedAdd_eq_some_iff.1 hstop
  have hnone : slice content offset (offset + output.length) = none := if_neg (by omega)
  simp only [hnone]
  exact ⟨_, rfl⟩

/-- `FileExt::seek_read`: the count or the error, and the buffer after the call. -/
abbrev SeekRead (σ : Type) := (buffer : Bytes) → (offset : Nat) → σ → (Except IoError Nat × Bytes) × σ

namespace SeekRead

variable {σ : Type} (seekRead : SeekRead σ)

/-- The `while bytes_read < output.len()` loop; `none` is a panic, or a loop that outlives its fuel. -/
def fillFrom (offset : Nat) : (fuel bytesRead : Nat) → (output : Bytes) → σ → Option (Filled IoError UInt8 × σ)
  | fuel, bytesRead, output, s =>
    if bytesRead < output.length then
      match fuel with
      | 0 => none
      | fuel + 1 => match tryFrom 64 bytesRead with
        | none => some (⟨.error (.new .invalidInput "read length does not fit in u64"), output⟩, s)
        | some read => match checkedAdd 64 offset read with
          | none => some (⟨.error (.new .invalidInput "file offset overflows u64"), output⟩, s)
          | some currentOffset => do
            let read := seekRead (← slice output bytesRead output.length) currentOffset s
            let output ← copyFrom output bytesRead output.length read.1.2
            match read.1.1 with
            | .error e => return (⟨.error e, output⟩, read.2)
            | .ok count =>
              if count = 0 then
                return (⟨.error (.new .unexpectedEof "failed to fill the requested file range"), output⟩, read.2)
              else fillFrom offset fuel (← checkedAdd 64 bytesRead count) output read.2
    else some (⟨.ok (), output⟩, s)

/-- `FileSource::read_exact_at` on Windows. Every round but a failing one reads a byte, so the buffer's length
is fuel enough. -/
def readExactAt (offset : Nat) (output : Bytes) (s : σ) : Option (Filled IoError UInt8 × σ) :=
  seekRead.fillFrom offset output.length 0 output s

/-- `seek_read` of an unchanging file: inside the file it puts at least one byte of it into the front of the
buffer and says how many, at the end none. What it does to the rest of the buffer is left open. -/
structure ReadsFile (content : Bytes) : Prop where
  length_lt : content.length < 2 ^ 64
  inside : ∀ buffer offset s, buffer ≠ [] → offset < content.length → ∃ count tail s',
    1 ≤ count ∧ offset + count ≤ content.length ∧ count + tail.length = buffer.length ∧
      seekRead buffer offset s = ((.ok count, (content.drop offset).take count ++ tail), s')
  past : ∀ buffer offset s, content.length ≤ offset → ∃ buffer' s', buffer'.length = buffer.length ∧
    seekRead buffer offset s = ((.ok 0, buffer'), s')

/-! ## The loop -/

section Loop

variable {seekRead} {content : Bytes} (file : seekRead.ReadsFile content) (offset fuel : Nat) {done rest : Bytes}
include file

/-- A round inside the file places at least one byte of it after those already there. -/
theorem fillFrom_inside (hrest : rest ≠ []) (hinside : offset + done.length < content.length) (s : σ) :
    ∃ count tail s', 1 ≤ count ∧ offset + done.length + count ≤ content.length ∧ count + tail.length = rest.length ∧
      seekRead.fillFrom offset (fuel + 1) done.length (done ++ rest) s = seekRead.fillFrom offset fuel (done.length + count)
        (done ++ ((content.drop (offset + done.length)).take count ++ tail)) s' := by
  have hlt := file.length_lt
  have hpos := List.length_pos_iff.2 hrest
  have hend : done.length + rest.length = (done ++ rest).length := List.length_append.symm
  obtain ⟨count, tail, s', hcount, hle, htail, hread⟩ := file.inside rest (offset + done.length) s hrest hinside
  have hslice : slice (done ++ rest) done.length (done ++ rest).length = some rest := by
    have := slice_append (c := []) (rfl : done.length = done.length) hend
    rwa [List.append_nil] at this
  have hchunk : ((content.drop (offset + done.length)).take count ++ tail).length = rest.length := by
    rw [List.length_append, List.length_take, List.length_drop]
    omega
  have hcopy : copyFrom (done ++ rest) done.length (done ++ rest).length
      ((content.drop (offset + done.length)).take count ++ tail) =
        some (done ++ ((content.drop (offset + done.length)).take count ++ tail)) := by
    have := copyFrom_append (c := []) (rfl : done.length = done.length) hend hchunk
    rwa [List.append_nil, List.append_nil] at this
  refine ⟨count, tail, s', hcount, hle, htail, ?_⟩
  rw [fillFrom, if_pos (by omega)]
  simp only [tryFrom_eq_some (show done.length < 2 ^ 64 by omega),
    checkedAdd_eq_some (show offset + done.length < 2 ^ 64 by omega), hslice, hread, hcopy, Option.bind_eq_bind,
    Option.bind_some, if_neg (Nat.ne_of_gt hcount), checkedAdd_eq_some (show done.length + count < 2 ^ 64 by omega)]

/-- A round at the end of the file, or past what an offset can say, fails. -/
theorem fillFrom_past (hrest : rest ≠ []) (hdone : done.length < 2 ^ 64) (hpast : content.length ≤ offset + done.length)
    (s : σ) : ∃ read s', seekRead.fillFrom offset (fuel + 1) done.length (done ++ rest) s = some (read, s') ∧
      ∃ e, read.result = .error e := by
  have hpos := List.length_pos_iff.2 hrest
  have hend : done.length + rest.length = (done ++ rest).length := List.length_append.symm
  rw [fillFrom, if_pos (by omega)]
  simp only [tryFrom_eq_some hdone]
  rcases hoffset : checkedAdd 64 offset done.length with _ | currentOffset
  · exact ⟨_, s, rfl, _, rfl⟩
  obtain ⟨-, rfl⟩ := checkedAdd_eq_some_iff.1 hoffset
  obtain ⟨buffer, s', hbuffer, hread⟩ := file.past rest (offset + done.length) s hpast
  have hslice : slice (done ++ rest) done.length (done ++ rest).length = some rest := by
    have := slice_append (c := []) (rfl : done.length = done.length) hend
    rwa [List.append_nil] at this
  have hcopy : copyFrom (done ++ rest) done.length (done ++ rest).length buffer = some (done ++ buffer) := by
    have := copyFrom_append (c := []) (rfl : done.length = done.length) hend hbuffer
    rwa [List.append_nil, List.append_nil] at this
  simp only [hslice, hread, hcopy, Option.bind_eq_bind, Option.bind_some, if_true]
  exact ⟨_, s', rfl, _, rfl⟩

/-- The bytes placed so far are the file's; the loop ends with the whole range, or with an error when the file
does not have it. -/
theorem fillFrom_eq : ∀ (done rest : Bytes) (s : σ), rest.length ≤ fuel →
    done = (content.drop offset).take done.length → 0 < done.length + rest.length →
    ∃ read s', seekRead.fillFrom offset fuel done.length (done ++ rest) s = some (read, s') ∧
      if offset + (done.length + rest.length) ≤ content.length then
        read = ⟨.ok (), (content.drop offset).take (done.length + rest.length)⟩
      else ∃ e, read.result = .error e := by
  induction fuel with
  | zero =>
    intro done rest s hfuel hdone hpos
    obtain rfl : rest = [] := List.eq_nil_of_length_eq_zero (Nat.le_zero.1 hfuel)
    have hlen := congrArg List.length hdone
    rw [List.length_take, List.length_drop] at hlen
    rw [List.length_nil] at hpos
    rw [fillFrom, List.append_nil, if_neg (Nat.lt_irrefl _)]
    refine ⟨_, s, rfl, ?_⟩
    rw [List.length_nil, Nat.add_zero, if_pos (by omega), ← hdone]
  | succ fuel ih =>
    intro done rest s hfuel hdone hpos
    have hlen := congrArg List.length hdone
    rw [List.length_take, List.length_drop] at hlen
    have hlt := file.length_lt
    by_cases hrest : rest = []
    · subst hrest
      rw [List.length_nil] at hpos
      rw [fillFrom, List.append_nil, if_neg (Nat.lt_irrefl _)]
      refine ⟨_, s, rfl, ?_⟩
      rw [List.length_nil, Nat.add_zero, if_pos (by omega), ← hdone]
    have hrestpos := List.length_pos_iff.2 hrest
    by_cases hinside : offset + done.length < content.length
    · obtain ⟨count, tail, s', hcount, hle, htail, hround⟩ := fillFrom_inside file offset fuel hrest hinside s
      -- the bytes placed and the ones before them are again the file's, and fewer are left
      have hchunk : ((content.drop (offset + done.length)).take count).length = count := by
        rw [List.length_take, List.length_drop]
        omega
      have hmore : done ++ (content.drop (offset + done.length)).take count =
          (content.drop offset).take (done.length + count) := by
        rw [List.take_add, ← hdone, List.drop_drop]
      have hcountlen : (done ++ (content.drop (offset + done.length)).take count).length = done.length + count := by
        rw [List.length_append, hchunk]
      obtain ⟨read, s'', hrun, hread⟩ := ih (done ++ (content.drop (offset + done.length)).take count) tail s'
        (by omega) (by rw [hcountlen, hmore]) (by omega)
      rw [hcountlen, List.append_assoc] at hrun
      rw [hcountlen, Nat.add_assoc done.length, htail] at hread
      exact ⟨read, s'', hround.trans hrun, hread⟩
    · have hpast : content.length ≤ offset + done.length := Nat.le_of_not_lt hinside
      obtain ⟨read, s', hrun, e, he⟩ := fillFrom_past file offset fuel hrest (by omega) hpast s
      refine ⟨read, s', hrun, ?_⟩
      rw [if_neg (by omega)]
      exact ⟨e, he⟩

end Loop

/-- On every schedule of short reads the Windows loop ends, and it reads a range exactly when `SliceSource` over
the file's bytes does: when the file has it. Both then leave the same bytes of it. -/
theorem readExactAt_agrees {content : Bytes} (file : seekRead.ReadsFile content) (offset : Nat) {output : Bytes}
    (hne : output ≠ []) (s : σ) :
    ∃ read s', seekRead.readExactAt offset output s = some (read, s') ∧
      (read.result = .ok () ↔ offset + output.length ≤ content.length) ∧
      ((SliceSource.readExactAt content offset output).result = .ok () ↔ offset + output.length ≤ content.length) ∧
      (read.result = .ok () → read.buffer = (content.drop offset).take output.length ∧
        (SliceSource.readExactAt content offset output).buffer = (content.drop offset).take output.length) := by
  have hpos := List.length_pos_iff.2 hne
  have hlt := file.length_lt
  obtain ⟨read, s', hrun, hread⟩ := fillFrom_eq file offset output.length [] output s le_rfl (by simp)
    (by rw [List.length_nil, Nat.zero_add]; exact hpos)
  rw [List.length_nil, List.nil_append] at hrun
  rw [List.length_nil, Nat.zero_add] at hread
  refine ⟨read, s', hrun, ?_⟩
  by_cases hle : offset + output.length ≤ content.length
  · rw [if_pos hle] at hread
    rw [hread, SliceSource.readExactAt_eq hlt hle]
    simp [hle]
  · rw [if_neg hle] at hread
    obtain ⟨e, he⟩ := hread
    have hover : content.length < offset + output.length := by omega
    obtain ⟨e', he'⟩ := SliceSource.readExactAt_of_lt hover
    rw [he, he']
    simp [hle]

/-- A file whose every `seek_read` stops after one byte. -/
def bytewise (content : Bytes) : SeekRead Unit := fun buffer offset _ =>
  let byte := (content.drop offset).take (min 1 buffer.length)
  ((.ok byte.length, byte ++ buffer.drop byte.length), ())

theorem readsFile_bytewise {content : Bytes} (h : content.length < 2 ^ 64) : (bytewise content).ReadsFile content where
  length_lt := h
  inside buffer offset s hne hlt := by
    have hpos := List.length_pos_iff.2 hne
    have hbyte : ((content.drop offset).take 1).length = 1 := by
      rw [List.length_take, List.length_drop]
      omega
    refine ⟨1, buffer.drop 1, (), Nat.le_refl 1, hlt, ?_, ?_⟩
    · rw [List.length_drop]
      omega
    · unfold bytewise
      rw [Nat.min_eq_left hpos]
      simp only [hbyte]
  past buffer offset s hle := by
    refine ⟨buffer, (), rfl, ?_⟩
    unfold bytewise
    rw [List.drop_eq_nil_of_le hle, List.take_nil]
    rfl

/-- Two of three bytes, one at a time. -/
theorem readExactAt_agrees_sample : ∃ read s', (bytewise [0x30, 0x31, 0x32]).readExactAt 1 [0, 0] () = some (read, s') ∧
    read.result = .ok () ∧ read.buffer = [0x31, 0x32] := by
  obtain ⟨read, s', hrun, hok, -, hbuffer⟩ := readExactAt_agrees (bytewise [0x30, 0x31, 0x32])
    (readsFile_bytewise (by decide)) 1 (List.cons_ne_nil 0 [0]) ()
  exact ⟨read, s', hrun, hok.2 (by decide), (hbuffer (hok.2 (by decide))).1⟩

end SeekRead

end Veilite.Core

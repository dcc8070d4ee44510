/-
Range reads in pieces: a buffer that is read chunk after chunk, each at the offset where the one before ended, gets
what one read of the whole buffer gives it, however it is divided. Where the range lies in the file the errors agree
too; where it does not, both fail, the pieces perhaps only after some of them were read.
-/
import Veilite.Core.Ranges

namespace Veilite.Core

open Buffer Traverse

namespace SqlCipherReader

variable {E : Type} (C : Primitives) (r : SqlCipherReader Unit E)

/-- `reader.read_exact_at(offset, output)?; offset += output.len();` for one buffer after another. -/
def readChunks : Nat → List Bytes → Option (Except (ReaderError E) (List Bytes))
  | _, [] => some (.ok [])
  | offset, output :: outputs => do
    let (read, _) ← r.readExactAt C offset output ()
    match read.result with
    | .error e => return .error e
    | .ok () => return (← readChunks (offset + output.length) outputs).map (read.buffer :: ·)

/-- What `read_exact_at` gives a buffer of the length; an empty one it gives nothing, wherever it is. -/
def chunk (offset length : Nat) : Except (ReaderError E) Bytes :=
  if length = 0 then .ok [] else (r.fetchRange C offset length ()).1

/-- Consecutive chunks up to the first that fails. -/
def chunks : Nat → List Nat → Except (ReaderError E) (List Bytes)
  | _, [] => .ok []
  | offset, length :: lengths => do
    let first ← r.chunk C offset length
    let rest ← chunks (offset + length) lengths
    return first :: rest

theorem readExactAt_eq_chunk (offset : Nat) (output : Bytes) :
    r.readExactAt C offset output () = some (.closed output.length 0 (r.chunk C offset output.length), ()) := by
  unfold chunk
  by_cases h : output = []
  · subst h
    rfl
  · rw [r.readExactAt_eq C h, if_neg (by simpa using h)]

theorem length_chunk {offset length : Nat} {bytes : Bytes} (h : r.chunk C offset length = .ok bytes) : bytes.length = length := by
  unfold chunk at h
  split at h
  · cases h
    exact Eq.symm ‹_›
  · exact r.length_fetchRange C h

theorem readChunks_eq (outputs : List Bytes) :
    ∀ offset, r.readChunks C offset outputs = some (r.chunks C offset (outputs.map List.length)) := by
  induction outputs with
  | nil => exact fun _ => rfl
  | cons output outputs ih =>
    intro offset
    unfold readChunks
    rw [r.readExactAt_eq_chunk C, List.map_cons, chunks]
    cases r.chunk C offset output.length with
    | error e => rfl
    | ok first =>
      simp only [Option.bind_eq_bind, Option.bind_some, Filled.closed_ok, ih]
      cases r.chunks C (offset + output.length) (outputs.map List.length) <;> rfl

theorem map_length_of_chunks {lengths : List Nat} : ∀ {offset : Nat} {buffers : List Bytes},
    r.chunks C offset lengths = .ok buffers → buffers.map List.length = lengths := by
  induction lengths with
  | nil =>
    rintro offset buffers ⟨⟩
    rfl
  | cons length lengths ih =>
    intro offset buffers h
    obtain ⟨first, hfirst, h⟩ := bind_eq_ok_iff.1 h
    obtain ⟨rest, hrest, h⟩ := bind_eq_ok_iff.1 h
    cases h
    rw [List.map_cons, r.length_chunk C hfirst, ih hrest]

/-- The range is empty or lies in the file. -/
def Within (offset length : Nat) : Prop := length = 0 ∨ offset + length ≤ r.fileSize

theorem Within.split {r : SqlCipherReader Unit E} {offset a b : Nat} (h : r.Within offset (a + b)) :
    r.Within offset a ∧ r.Within (offset + a) b := by
  unfold Within at *
  omega

theorem chunk_eq_range {offset length : Nat} (h : r.Within offset length) :
    r.chunk C offset length = (r.store C).range offset length := by
  have := r.fileSize_lt
  unfold chunk
  by_cases hlen : length = 0
  · subst hlen
    simp
  · have hin : offset + length ≤ r.fileSize := h.resolve_left hlen
    rw [if_neg hlen]
    unfold fetchRange
    rw [if_neg (by omega), if_neg (by omega)]
    rfl

theorem chunks_eq_ranges {lengths : List Nat} : ∀ {offset : Nat}, r.Within offset lengths.sum →
    r.chunks C offset lengths = (r.store C).ranges offset lengths := by
  induction lengths with
  | nil => exact fun _ => rfl
  | cons length lengths ih =>
    intro offset h
    obtain ⟨hfirst, hrest⟩ := Within.split (List.sum_cons (a := length) ▸ h)
    unfold chunks Paged.Store.ranges
    rw [r.chunk_eq_range C hfirst, ih hrest]

theorem chunk_outside {offset length : Nat} (h : ¬ r.Within offset length) : ∃ e, r.chunk C offset length = .error e := by
  unfold Within at h
  unfold chunk fetchRange
  rw [if_neg (by omega)]
  split
  · exact ⟨_, rfl⟩
  · rw [if_pos (by omega)]
    exact ⟨_, rfl⟩

/-- Some piece of a range that leaves the file fails. -/
theorem chunks_outside {lengths : List Nat} : ∀ {offset : Nat}, ¬ r.Within offset lengths.sum →
    ∃ e, r.chunks C offset lengths = .error e := by
  induction lengths with
  | nil => exact fun h => absurd (.inl rfl) h
  | cons length lengths ih =>
    intro offset h
    unfold chunks
    rcases hfirst : r.chunk C offset length with e | first
    · exact ⟨e, rfl⟩
    have hwithin : r.Within offset length := by
      by_contra hout
      obtain ⟨e, he⟩ := r.chunk_outside C hout
      rw [he] at hfirst
      cases hfirst
    -- so the rest leaves the file
    have hrest : ¬ r.Within (offset + length) lengths.sum := by
      rw [List.sum_cons] at h
      unfold Within at *
      omega
    obtain ⟨e, he⟩ := ih hrest
    exact ⟨e, by rw [he]; rfl⟩

/-- A buffer read in chunks is read as a whole: the chunks are all read exactly when the whole is, they are its
content, and in the file they fail with its error. -/
theorem readChunks_eq_readExactAt (offset : Nat) (outputs : List Bytes) :
    ∃ chunks read, r.readChunks C offset outputs = some chunks ∧ r.readExactAt C offset outputs.flatten () = some (read, ()) ∧
      (read.result = .ok () ↔ ∃ buffers, chunks = .ok buffers) ∧
      (∀ buffers, chunks = .ok buffers →
        buffers.map List.length = outputs.map List.length ∧ read.buffer = buffers.flatten) ∧
      (offset + outputs.flatten.length ≤ r.fileSize → ∀ e, chunks = .error e ↔ read.result = .error e) := by
  have hlen : outputs.flatten.length = (outputs.map List.length).sum := List.length_flatten
  refine ⟨_, _, r.readChunks_eq C outputs offset, r.readExactAt_eq_chunk C offset _, ?_⟩
  rw [hlen]
  by_cases hwithin : r.Within offset (outputs.map List.length).sum
  · have hwhole : r.chunk C offset (outputs.map List.length).sum =
        (r.chunks C offset (outputs.map List.length)).map List.flatten := by
      rw [r.chunk_eq_range C hwithin, r.chunks_eq_ranges C hwithin, (r.store C).range_sum]
    rw [hwhole]
    rcases hchunks : r.chunks C offset (outputs.map List.length) with e | buffers
    · simp [Except.map]
    · simpa [Except.map] using r.map_length_of_chunks C hchunks
  · obtain ⟨e, he⟩ := r.chunk_outside C hwithin
    obtain ⟨e', he'⟩ := r.chunks_outside C hwithin
    rw [he, he']
    refine ⟨by simp, by simp, fun hin => absurd (.inr hin) hwithin⟩

end SqlCipherReader

end Veilite.Core

/-
Sessions on any source: one that keeps a cursor, a log or a schedule of short reads in its state, and has the bytes of
a file, gives every caller what the file itself gives.
-/
import Veilite.Core.Simulation
import Veilite.Turso.Unauthenticated

namespace Veilite.Turso

open Buffer Veilite.Core

section Sources

variable (C : Primitives) {σ τ : Type}

/-- The call, with the state it leaves the source in. -/
def ReaderCall.runFrom (r : SqlCipherReader σ IoError) : ReaderCall → σ → Option (Filled (ReaderError IoError) UInt8 × σ)
  | .readPageInto pageNo output, s => r.readPageInto C pageNo output s
  | .readExactAt offset output, s => r.readExactAt C offset output s

/-- The answers to a sequence of calls, each from the state the one before it left; a panic ends the sequence. -/
def answers (r : SqlCipherReader σ IoError) : List ReaderCall → σ → List (Option (Filled (ReaderError IoError) UInt8))
  | [], _ => []
  | call :: calls, s => match call.runFrom C r s with
    | none => [none]
    | some (answer, s) => some answer :: answers r calls s

/-- `session` over a source. -/
def sessionFrom (source : ReadAt σ IoError) (config : CipherConfig) (passphrase : Bytes) (calls : List ReaderCall) (s : σ) :
    Except (ReaderError IoError) (Nat × Nat × List (Option (Filled (ReaderError IoError) UInt8))) :=
  let opened := SqlCipherReader.open C source config passphrase s
  opened.1.map fun r => (r.pageSize, r.pageCount, answers C r calls opened.2)

variable {R : σ → τ → Prop}

theorem runFrom_alike {r : SqlCipherReader σ IoError} {r' : SqlCipherReader τ IoError} (h : r.Alike r' R) (call : ReaderCall)
    {s : σ} {t : τ} (hst : R s t) :
    ∃ answer s' t', call.runFrom C r s = some (answer, s') ∧ call.runFrom C r' t = some (answer, t') ∧ R s' t' := by
  cases call with
  | readPageInto pageNo output => exact h.readPageInto C pageNo output hst
  | readExactAt offset output => exact h.readExactAt C offset output hst

theorem answers_alike {r : SqlCipherReader σ IoError} {r' : SqlCipherReader τ IoError} (h : r.Alike r' R) :
    ∀ (calls : List ReaderCall) {s : σ} {t : τ}, R s t → answers C r calls s = answers C r' calls t
  | [], _, _, _ => rfl
  | call :: calls, s, t, hst => by
    obtain ⟨answer, s', t', hs, ht, hnext⟩ := runFrom_alike C h call hst
    unfold answers
    rw [hs, ht]
    exact congrArg _ (answers_alike h calls hnext)

/-- Sources that answer alike give one session. -/
theorem sessionFrom_alike {size : Except IoError Nat} {A : ReadAt σ IoError} {B : ReadAt τ IoError} (h : A.Alike size B R)
    (config : CipherConfig) (passphrase : Bytes) (calls : List ReaderCall) {s : σ} {t : τ} (hst : R s t) :
    sessionFrom C A config passphrase calls s = sessionFrom C B config passphrase calls t := by
  have hopen := SqlCipherReader.open_alike C h config passphrase hst
  unfold sessionFrom
  generalize SqlCipherReader.open C A config passphrase s = opened, SqlCipherReader.open C B config passphrase t = opened' at hopen
  cases hopen with
  | error e hnext => rfl
  | ok hnext hr => simp [Except.map, hr.pageSize, hr.pageCount, answers_alike C hr calls hnext]

/-- Over a file no call panics, and none leaves a state. -/
theorem answers_file (r : SqlCipherReader Unit IoError) : ∀ calls : List ReaderCall,
    answers C r calls () = calls.map (ReaderCall.run C r)
  | [] => rfl
  | call :: calls => by
    have hrun : ∃ answer, call.runFrom C r () = some (answer, ()) ∧ call.run C r = some answer := by
      cases call with
      | readPageInto pageNo output =>
        unfold ReaderCall.runFrom ReaderCall.run
        dsimp only
        by_cases hlen : output.length = r.pageSize
        · rw [r.readPageInto_eq C hlen]
          exact ⟨_, rfl, rfl⟩
        · rw [r.readPageInto_of_length_ne C hlen]
          exact ⟨_, rfl, rfl⟩
      | readExactAt offset output =>
        unfold ReaderCall.runFrom ReaderCall.run
        dsimp only
        by_cases hne : output = []
        · subst hne
          exact ⟨_, rfl, rfl⟩
        · rw [r.readExactAt_eq C hne]
          exact ⟨_, rfl, rfl⟩
    obtain ⟨answer, hfrom, hrun⟩ := hrun
    unfold answers
    rw [hfrom, List.map_cons, hrun]
    exact congrArg _ (answers_file r calls)

/-- A source that has the bytes of a file gives its session. -/
theorem sessionFrom_of_holds {source : ReadAt σ IoError} {content : Bytes} {I : σ → Prop} (h : source.Holds content I)
    (config : CipherConfig) (passphrase : Bytes) (calls : List ReaderCall) {s : σ} (hs : I s) :
    sessionFrom C source config passphrase calls s = session C content config passphrase calls := by
  rw [sessionFrom_alike C (h.alike (FileSource.holds content)) config passphrase calls (t := ()) ⟨hs, trivial⟩]
  unfold sessionFrom session
  rcases SqlCipherReader.open C (FileSource content) config passphrase () with ⟨e | r, -⟩
  · rfl
  · simp only [Except.map, answers_file C r]

/-- Which source a database is read through makes no difference: a slice of it in memory, the Unix file, the Windows
file whatever the lengths of its short reads, and any other source that has its length and its ranges, with its calls
traced or not, give the same outcome of `open` and the same result and buffer for every call of every session. -/
theorem sessions_agree_across_sources {content : Bytes} (hlt : content.length < 2 ^ 64) (config : CipherConfig)
    (passphrase : Bytes) (calls : List ReaderCall) :
    sessionFrom C (SliceSource content) config passphrase calls () = session C content config passphrase calls ∧
    (∀ (σ : Type) (seekRead : SeekRead σ), seekRead.ReadsFile content → ∀ s,
      sessionFrom C (seekRead.source content.length) config passphrase calls s = session C content config passphrase calls) ∧
    ∀ (σ : Type) (source : ReadAt σ IoError) (I : σ → Prop), source.Holds content I → ∀ s, I s → ∀ log,
      sessionFrom C source config passphrase calls s = session C content config passphrase calls ∧
      sessionFrom C source.traced config passphrase calls (s, log) = session C content config passphrase calls := by
  refine ⟨sessionFrom_of_holds C (SliceSource.holds hlt) config passphrase calls trivial, fun σ seekRead file s => ?_,
    fun σ source I h s hs log => ⟨sessionFrom_of_holds C h config passphrase calls hs, ?_⟩⟩
  · exact sessionFrom_of_holds C file.holds config passphrase calls trivial
  · exact sessionFrom_of_holds C h.traced config passphrase calls hs

end Sources

/-- The one-page database, one byte at a time. -/
theorem sessions_agree_across_sources_sample :
    sessionFrom sample ((SeekRead.bytewise samplePage).source samplePage.length) sampleConfig samplePassphrase
        [.readExactAt 0 [0, 0]] () = session sample samplePage sampleConfig samplePassphrase [.readExactAt 0 [0, 0]] := by
  have hlt : samplePage.length < 2 ^ 64 := by rw [length_samplePage]; decide
  exact (sessions_agree_across_sources sample hlt sampleConfig samplePassphrase [.readExactAt 0 [0, 0]]).2.1 Unit
    (SeekRead.bytewise samplePage) (SeekRead.readsFile_bytewise hlt) ()

end Veilite.Turso

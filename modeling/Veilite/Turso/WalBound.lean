/-
The physical bound of a WAL snapshot: `connect` counts the frames the WAL has room for, `open_connection` adds
them to the pages of the main file. A snapshot whose pages are in the main file or in complete frames is within
it. SQLite's lock-byte page is in neither, but then page 1 has a frame of its own, which makes up for it.
-/
import Mathlib.Order.Interval.Finset.Nat
import Veilite.Turso.Opening

namespace Veilite.Turso

open Buffer Veilite.Core

/-! ## Counting frames -/

/-- A list that has all numbers of an interval but one, and a number before the interval, is as long as the
interval. -/
theorem le_add_length_of_mem {lo hi hole extra : Nat} {l : List Nat} (hextra : extra ≤ lo)
    (hmem : ∀ number, lo < number → number ≤ hi → number ≠ hole → number ∈ l) (hone : lo < hi → extra ∈ l) :
    hi ≤ lo + l.length := by
  by_cases hlt : lo < hi
  · have hnot : extra ∉ (Finset.Ioc lo hi).erase hole := by
      intro h
      have := (Finset.mem_Ioc.1 (Finset.mem_of_mem_erase h)).1
      omega
    have hsub : insert extra ((Finset.Ioc lo hi).erase hole) ⊆ l.toFinset := by
      intro number h
      rw [List.mem_toFinset]
      rcases Finset.mem_insert.1 h with rfl | h
      · exact hone hlt
      obtain ⟨hne, h⟩ := Finset.mem_erase.1 h
      exact hmem number (Finset.mem_Ioc.1 h).1 (Finset.mem_Ioc.1 h).2 hne
    have hcard : (Finset.Ioc lo hi).card - 1 ≤ ((Finset.Ioc lo hi).erase hole).card := Finset.pred_card_le_card_erase
    have hle := (Finset.card_le_card hsub).trans (List.toFinset_card_le l)
    rw [Finset.card_insert_of_notMem hnot] at hle
    rw [Nat.card_Ioc] at hcard
    omega
  · omega

/-- The WAL file: its size, and the page each complete frame is for, stale and repeated frames included. What
is left of the file may be a partial frame. -/
structure Wal (config : CipherConfig) where
  size : Nat
  frames : List Nat
  size_lt : size < 2 ^ 64
  fits : frames ≠ [] → 32 + frames.length * (24 + config.pageSize) ≤ size

section Bound

variable {config : CipherConfig}

/-- The pages a snapshot has beyond the main file are in complete frames, the lock-byte page excepted; the
commit that made the database grow wrote page 1 too. -/
structure Wal.Covers (wal : Wal config) (mainPages count : Nat) : Prop where
  grown : ∀ number, mainPages < number → number ≤ count → number ≠ 2 ^ 30 / config.pageSize + 1 → number ∈ wal.frames
  first : mainPages < count → 1 ∈ wal.frames

/-- The WAL has room for all its complete frames. -/
theorem Wal.length_frames_le (wal : Wal config) : wal.frames.length ≤ (wal.size - 32) / (config.pageSize + 24) := by
  rw [Nat.le_div_iff_mul_le (by omega)]
  rcases hframes : wal.frames with _ | ⟨number, rest⟩
  · simp
  have hfits := wal.fits (by rw [hframes]; exact List.cons_ne_nil number rest)
  rw [hframes, Nat.add_comm 24] at hfits
  omega

theorem Wal.Covers.count_le {wal : Wal config} {mainPages count : Nat} (h : wal.Covers mainPages count)
    (hpos : 0 < mainPages) : count ≤ mainPages + (wal.size - 32) / (config.pageSize + 24) :=
  (le_add_length_of_mem hpos h.grown h.first).trans (Nat.add_le_add_left wal.length_frames_le _)

/-! ## The bound of `connect` -/

/-- `connect`'s computation with every step that could panic. -/
def WalInput.frames? (input : WalInput) (config : CipherConfig) : Option Nat := do
  let frameSize ← checkedAdd 64 config.pageSize 24
  let (frames, _) ← divRem (input.walSize - 32) frameSize
  return (tryFrom 32 frames).getD (2 ^ 32 - 1)

/-- It does not panic. -/
theorem WalInput.frames?_eq (input : WalInput) (config : CipherConfig) :
    input.frames? config = some (input.frames config) := by
  have hle := config.pageSize_le
  unfold WalInput.frames? WalInput.frames
  rw [checkedAdd_eq_some (by omega)]
  simp only [Option.bind_eq_bind, Option.bind_some, divRem_eq_some (Nat.add_pos_right _ (by decide : 0 < 24))]
  rfl

theorem WalInput.frames_lt (input : WalInput) (config : CipherConfig) : input.frames config < 2 ^ 32 := by
  unfold WalInput.frames
  rcases hframes : tryFrom 32 ((input.walSize - 32) / (config.pageSize + 24)) with _ | frames
  · exact Nat.sub_one_lt (by decide)
  · obtain ⟨hlt, rfl⟩ := tryFrom_eq_some_iff.1 hframes
    exact hlt

/-- A count that fits a `u32` and the room of the WAL is within the saturated bound. -/
theorem WalInput.le_saturatingAdd_frames {input : WalInput} {mainPages count : Nat} (hcount : count < 2 ^ 32)
    (h : count ≤ mainPages + (input.walSize - 32) / (config.pageSize + 24)) :
    count ≤ saturatingAdd 32 mainPages (input.frames config) := by
  refine le_min ?_ (by omega)
  unfold WalInput.frames
  rcases hframes : tryFrom 32 ((input.walSize - 32) / (config.pageSize + 24)) with _ | frames
  · rw [Option.getD_none]
    omega
  · obtain ⟨-, rfl⟩ := tryFrom_eq_some_iff.1 hframes
    exact h

variable {C : Primitives}

/-- A connection's codec and bound are those of a main file of a positive `u32` of pages. -/
theorem WalInput.connect_ok {fs : FsView} {engine : Engine} {input : WalInput} {passphrase : Bytes}
    {registry registry' : Registry} {connection : Connection} {maximum : Nat}
    (h : input.connect C fs engine config passphrase registry = some (.ok (connection, maximum), registry')) :
    ∃ mainPages salt, 0 < mainPages ∧ mainPages < 2 ^ 32 ∧
      connection.codec = .new C ⟨config, .derive C config passphrase salt⟩ config salt mainPages
        (some (input.frames config)) (some input.path.bytes) ∧
      maximum = saturatingAdd 32 mainPages (input.frames config) := by
  unfold WalInput.connect openConnection at h
  rcases openCodec_cases C fs input.path config passphrase (some (input.frames config)) with ⟨e, he⟩ | ⟨source, size, salt, hauth⟩
  · rw [he] at h
    cases h
  rw [openCodec_of_authenticates C fs input.path config passphrase (some (input.frames config)) hauth] at h
  simp only [Option.bind_eq_bind, Option.bind_some, Option.pure_def, Option.some.injEq, Prod.mk.injEq] at h
  obtain ⟨h, -⟩ := h
  refine ⟨size / config.pageSize, salt, ?_, hauth.count, ?_⟩
  · exact Nat.div_pos (Nat.le_of_dvd hauth.positive hauth.whole) config.pageSize_pos
  -- the engine hands back the codec it was given, or there is no connection
  unfold attach at h
  rcases hio : engine.platformIo with _ | e
  · rw [hio] at h
    dsimp only at h
    generalize openDatabase engine (fs.fileId input.path) _ registry = opened at h
    rcases opened with ⟨e | _, registered⟩
    · cases h
    rcases hconnect : engine.connect with _ | e
    · rw [hconnect] at h
      cases h
      exact ⟨rfl, rfl⟩
    · rw [hconnect] at h
      cases h
  · rw [hio] at h
    cases h

/-- A count within the bound is accepted. -/
theorem beginSnapshot_of_le (config : CipherConfig) {engine : Engine} (connection : Connection) {count maximum : Nat}
    (hbegin : engine.beginRead = none) (hpages : engine.pageCount = .ok (count : Int)) (hpos : 0 < count)
    (hlt : count < 2 ^ 32) (hle : count ≤ maximum) :
    ∃ snapshot, beginSnapshot engine config connection maximum = .ok snapshot ∧ snapshot.connection = connection ∧
      snapshot.pageCount = count := by
  unfold beginSnapshot
  rw [hbegin, hpages]
  dsimp only
  rw [dif_pos (by omega)]
  exact ⟨_, rfl, rfl, rfl⟩

/-- A codec of a main file with a WAL beside it serves the pages of the WAL up to the bound. -/
theorem SqlCipherCodec.inRange_new {decoder : PageDecryptor} {salt : Block} {mainPages frames : Nat}
    {walIdentity : Option Bytes} {number : Nat} (h : number ≤ saturatingAdd 32 mainPages frames) :
    (SqlCipherCodec.new C decoder config salt mainPages (some frames) walIdentity).inRange ⟨.wal, number⟩ = true := by
  unfold SqlCipherCodec.inRange SqlCipherCodec.new
  simpa using h

end Bound

/-! ## The bound and the snapshot -/

/-- The bound never refuses a snapshot whose pages are there: whatever the sizes of the main file and the WAL,
its page count is within it, the snapshot is accepted, and the codec takes each of its pages from the WAL. No
step of the computation overflows or divides by zero. -/
theorem snapshot_within_bound (C : Primitives) {config : CipherConfig} {input : WalInput} {wal : Wal config}
    {mainPages count : Nat} (hsize : input.walSize = wal.size) (hmain : 0 < mainPages) (hmain_lt : mainPages < 2 ^ 32)
    (hcount : 0 < count) (hcount_lt : count < 2 ^ 32) (hcovers : wal.Covers mainPages count) :
    count ≤ saturatingAdd 32 mainPages (input.frames config) ∧
    (∀ (decoder : PageDecryptor) (salt : Block) (walIdentity : Option Bytes) (number : Nat), 1 ≤ number → number ≤ count →
      (SqlCipherCodec.new C decoder config salt mainPages (some (input.frames config)) walIdentity).inRange
        ⟨.wal, number⟩ = true) ∧
    (∀ (engine : Engine) (connection : Connection), engine.beginRead = none → engine.pageCount = .ok (count : Int) →
      ∃ snapshot, beginSnapshot engine config connection (saturatingAdd 32 mainPages (input.frames config)) =
        .ok snapshot ∧ snapshot.pageCount = count) ∧
    (∀ (fs : FsView) (engine : Engine) (passphrase : Bytes) (registry registry' : Registry) (connection : Connection)
      (maximum : Nat), input.connect C fs engine config passphrase registry = some (.ok (connection, maximum), registry') →
      connection.codec.pageCount = mainPages → engine.beginRead = none → engine.pageCount = .ok (count : Int) →
      ∃ snapshot, input.snapshot C fs engine config passphrase registry = some (.ok snapshot, registry') ∧
        snapshot.pageCount = count ∧
        ∀ number, 1 ≤ number → number ≤ count → snapshot.connection.codec.inRange ⟨.wal, number⟩ = true) ∧
    input.frames? config = some (input.frames config) ∧ input.frames config < 2 ^ 32 := by
  have hle : count ≤ saturatingAdd 32 mainPages (input.frames config) := by
    apply WalInput.le_saturatingAdd_frames hcount_lt
    rw [hsize]
    exact hcovers.count_le hmain
  refine ⟨hle, ?_, ?_, ?_, input.frames?_eq config, input.frames_lt config⟩
  · intro decoder salt walIdentity number _ hnumber
    exact SqlCipherCodec.inRange_new (hnumber.trans hle)
  · intro engine connection hbegin hpages
    obtain ⟨snapshot, hsnapshot, -, hpageCount⟩ := beginSnapshot_of_le config connection hbegin hpages hcount hcount_lt hle
    exact ⟨snapshot, hsnapshot, hpageCount⟩
  · intro fs engine passphrase registry registry' connection maximum hconnect hpageCount hbegin hpages
    obtain ⟨mainPages', salt, -, -, hcodec, rfl⟩ := WalInput.connect_ok hconnect
    -- the codec was built for these pages of the main file
    obtain rfl : mainPages' = mainPages := by
      rw [← hpageCount, hcodec]
      rfl
    obtain ⟨snapshot, hsnapshot, hconnection, hselected⟩ :=
      beginSnapshot_of_le config connection hbegin hpages hcount hcount_lt hle
    refine ⟨snapshot, ?_, hselected, ?_⟩
    · unfold WalInput.snapshot
      simp only [hconnect, hsnapshot, Option.bind_eq_bind, Option.bind_some, Option.pure_def]
    · intro number _ hnumber
      rw [hconnection, hcodec]
      exact SqlCipherCodec.inRange_new (hnumber.trans hle)

/-- A WAL of three frames and a partial one: page 2 twice, then page 1. -/
def sampleWal : Wal sampleConfig := ⟨3276, [2, 2, 1], by decide, fun _ => by decide⟩

theorem sampleWal_covers : sampleWal.Covers 1 2 where
  grown number hlt hle _ := by
    obtain rfl : number = 2 := by omega
    decide
  first _ := by decide

/-- A second page committed over a one-page main file. -/
theorem snapshot_within_bound_sample :
    2 ≤ saturatingAdd 32 1 (WalInput.frames ⟨samplePath, 3276⟩ sampleConfig) ∧
      (SqlCipherCodec.new sample sampleDecryptor sampleConfig sampleSalt 1
        (some (WalInput.frames ⟨samplePath, 3276⟩ sampleConfig)) none).inRange ⟨.wal, 2⟩ = true := by
  obtain ⟨hle, hrange, -⟩ := snapshot_within_bound sample 
    (show WalInput.walSize ⟨samplePath, 3276⟩ = sampleWal.size from rfl) Nat.one_pos (by decide) Nat.two_pos (by decide) sampleWal_covers
  exact ⟨hle, hrange sampleDecryptor sampleSalt none 2 (by decide) (by decide)⟩

end Veilite.Turso

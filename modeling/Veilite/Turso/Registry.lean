/-
Sharing the engine's process-wide registry over any run of opens. Every call authenticates for itself
before the engine is entered, so the registry decides nothing about keys; what connections of one entry
share is what their codec identity digests, which the digested bytes determine.
-/
import Veilite.Turso.Opening

namespace Veilite.Turso

open Buffer Veilite.Core

/-! ## The codec identity -/

/-- Two different identity inputs with one truncated digest. -/
def DigestCollision (C : Primitives) (x y : Bytes) : Prop :=
  x ≠ y ∧ (C.sha256 x).toList.take 16 = (C.sha256 y).toList.take 16

theorem algorithmId_inj {a b : HashAlgorithm} (h : algorithmId a = algorithmId b) : a = b := by
  cases a <;> cases b <;> first | rfl | cases h

/-- The digested bytes determine the format, the salt, the mode and the WAL identity: everything before
the path has a fixed length. -/
theorem codecIdInput_inj {a b : CipherConfig} {s t : Block} {v w : Option Nat} {p q : Option Bytes}
    (h : codecIdInput a s v p = codecIdInput b t w q) :
    a.pageSize = b.pageSize ∧ a.kdfIterations = b.kdfIterations ∧ a.kdfAlgorithm = b.kdfAlgorithm ∧
      a.hmacAlgorithm = b.hmacAlgorithm ∧ s = t ∧ v.isSome = w.isSome ∧ p.getD [] = q.getD [] := by
  unfold codecIdInput at h
  -- from the path backwards, every part before has a fixed length
  obtain ⟨h, hpath⟩ := List.append_inj h (by simp)
  obtain ⟨h, hmode⟩ := List.append_inj h (by simp)
  obtain ⟨h, hsalt⟩ := List.append_inj h (by simp)
  obtain ⟨h, halg⟩ := List.append_inj h (by simp)
  obtain ⟨h, hiter⟩ := List.append_inj h (by simp)
  obtain ⟨-, hsize⟩ := List.append_inj h (by simp)
  have ha := a.pageSize_le
  have hb := b.pageSize_le
  have hai : a.kdfIterations ≤ 2 ^ 31 - 1 := a.kdfIterations_ok.2
  have hbi : b.kdfIterations ≤ 2 ^ 31 - 1 := b.kdfIterations_ok.2
  simp only [List.cons.injEq, and_true] at halg hmode
  refine ⟨le32_inj (by omega) (by omega) hsize, le32_inj (by omega) (by omega) hiter,
    algorithmId_inj halg.1, algorithmId_inj halg.2, Arr.ext hsalt, ?_, hpath⟩
  cases v <;> cases w <;> first | rfl | exact absurd hmode (by simp)

/-! ## One call -/

inductive Entrance
  | openReadonly
  | openReadonlyWithWal
  | snapshot
deriving DecidableEq, Repr

/-- A call into the library, with what the engine does during it. -/
structure Call where
  entrance : Entrance
  path : Path
  config : CipherConfig
  passphrase : Bytes
  engine : Engine

namespace Call

variable (C : Primitives) (fs : FsView) (call : Call)

/-- The call on a registry; a snapshot's connection is the one it holds. -/
def run (registry : Registry) : Option (Except OpenError Connection × Registry) :=
  match call.entrance with
  | .openReadonly => openMain C fs call.engine call.path call.config call.passphrase registry
  | .openReadonlyWithWal => openReadonlyWithWal C fs call.engine call.path call.config call.passphrase registry
  | .snapshot => match WalInput.open fs call.path with
    | .error e => some (.error e, registry)
    | .ok input => (input.snapshot C fs call.engine call.config call.passphrase registry).map fun opened =>
        (opened.1.map WalSnapshot.connection, opened.2)

/-- The canonical main path and the WAL bound the call opens, after its checks. -/
def target : Except OpenError (Path × Option Nat) :=
  match call.entrance with
  | .openReadonly => (resolveMain fs call.path call.passphrase).map fun resolved => (resolved, none)
  | _ => (WalInput.open fs call.path).map fun input => (input.path, some (input.frames call.config))

/-- The call's checks pass and page 1 of its main file opens under its own key. -/
def OpensAs (resolved : Path) (walPages : Option Nat) (size : Nat) (salt : Block) : Prop :=
  call.target fs = .ok (resolved, walPages) ∧
    ∃ source, Authenticates C fs resolved call.config call.passphrase source size salt

def Authenticated : Prop :=
  ∃ resolved walPages size salt, call.OpensAs C fs resolved walPages size salt

def codecOf (resolved : Path) (walPages : Option Nat) (size : Nat) (salt : Block) : SqlCipherCodec :=
  (Turso.codecOf C resolved call.config call.passphrase walPages size salt).1

end Call

/-- A database opens on an entry with its codec's identity, new or not, or does not and leaves the
registry as it is. -/
theorem openDatabase_cases (engine : Engine) (file : FileId) (codec : SqlCipherCodec) (registry : Registry) :
    (∃ e, openDatabase engine file codec registry = (.error e, registry)) ∨
      (registry file = some codec.id ∧ openDatabase engine file codec registry = (.ok (), registry)) ∨
      (registry file = none ∧
        openDatabase engine file codec registry = (.ok (), Function.update registry file (some codec.id))) := by
  unfold openDatabase
  cases hfile : registry file with
  | some id =>
    by_cases hid : id = codec.id
    · subst hid
      dsimp only
      rw [if_neg (not_not.2 rfl)]
      cases engine.openDatabase with
      | some e => exact Or.inl ⟨e, rfl⟩
      | none => exact Or.inr (Or.inl ⟨rfl, rfl⟩)
    · dsimp only
      rw [if_pos hid]
      exact Or.inl ⟨_, rfl⟩
  | none =>
    cases engine.openDatabase with
    | some e => exact Or.inl ⟨e, rfl⟩
    | none => exact Or.inr (Or.inr ⟨rfl, rfl⟩)

/-- What the engine's half of an open does: an error with the registry as it was, or a database on an entry
with the codec's identity, and then the connection on it or an error. -/
theorem attach_cases (fs : FsView) (engine : Engine) (resolved : Path) (codec : SqlCipherCodec) (registry : Registry) :
    (∃ e, attach fs engine resolved codec registry = (.error e, registry)) ∨
      ∃ result registry', attach fs engine resolved codec registry = (result, registry') ∧
        registry' (fs.fileId resolved) = some codec.id ∧
        (registry' = registry ∨
          registry (fs.fileId resolved) = none ∧
            registry' = Function.update registry (fs.fileId resolved) (some codec.id)) ∧
        ∀ connection, result = .ok connection → connection.codec = codec ∧ connection.entry = fs.fileId resolved := by
  unfold attach
  cases engine.platformIo with
  | some e => exact Or.inl ⟨_, rfl⟩
  | none =>
    simp only
    rcases openDatabase_cases engine (fs.fileId resolved) codec registry with ⟨e, he⟩ | ⟨hfile, he⟩ | ⟨hfile, he⟩
    · rw [he]
      exact Or.inl ⟨_, rfl⟩
    · rw [he]
      cases engine.connect with
      | some e => exact Or.inl ⟨_, rfl⟩
      | none => exact Or.inr ⟨_, _, rfl, hfile, Or.inl rfl, by rintro connection ⟨⟩; exact ⟨rfl, rfl⟩⟩
    · rw [he]
      cases engine.connect with
      | some e =>
        -- the entry stays registered although nothing is connected
        exact Or.inr ⟨_, _, rfl, Function.update_self .., Or.inr ⟨hfile, rfl⟩, by rintro connection ⟨⟩⟩
      | none =>
        exact Or.inr ⟨_, _, rfl, Function.update_self .., Or.inr ⟨hfile, rfl⟩, by rintro connection ⟨⟩; exact ⟨rfl, rfl⟩⟩

theorem beginSnapshot_eq_ok {engine : Engine} {config : CipherConfig} {connection : Connection} {maximum : Nat}
    {snapshot : WalSnapshot} (h : beginSnapshot engine config connection maximum = .ok snapshot) :
    snapshot.connection = connection ∧ snapshot.pageCount ≤ maximum ∧ snapshot.pageSize = config.pageSize := by
  unfold beginSnapshot at h
  split at h
  · cases h
  · split at h
    · cases h
    · split at h
      · rename_i hcount
        cases h
        exact ⟨rfl, hcount.2.2.2, rfl⟩
      · cases h

namespace Call

variable (C : Primitives) (fs : FsView) (call : Call)

/-- What the call makes of the connection: a snapshot starts its read transaction on it. -/
def finish (opened : Connection × Nat) : Except OpenError Connection :=
  match call.entrance with
  | .snapshot => (beginSnapshot call.engine call.config opened.1 opened.2).map WalSnapshot.connection
  | _ => .ok opened.1

theorem finish_eq_ok {opened : Connection × Nat} {connection : Connection} (h : call.finish opened = .ok connection) :
    opened.1 = connection := by
  unfold finish at h
  cases hentrance : call.entrance with
  | openReadonly => rw [hentrance] at h; exact Except.ok.inj h
  | openReadonlyWithWal => rw [hentrance] at h; exact Except.ok.inj h
  | snapshot =>
    rw [hentrance] at h
    dsimp only at h
    rcases hbegin : beginSnapshot call.engine call.config opened.1 opened.2 with e | snapshot
    · rw [hbegin] at h; cases h
    rw [hbegin] at h
    cases h
    exact (beginSnapshot_eq_ok hbegin).1.symm

/-- Whatever the entrance, a call is its checks, `open_connection` on their result, and its end. -/
theorem run_eq (registry : Registry) :
    call.run C fs registry = match call.target fs with
      | .error e => some (.error e, registry)
      | .ok input =>
        (openConnection C fs call.engine input.1 call.config call.passphrase input.2 registry).map
          fun opened => (opened.1.bind call.finish, opened.2) := by
  unfold run target finish
  cases call.entrance with
  | openReadonly =>
    dsimp only
    unfold openMain
    rcases resolveMain fs call.path call.passphrase with e | resolved
    · rfl
    simp only [Except.map]
    cases openConnection C fs call.engine resolved call.config call.passphrase none registry <;> rfl
  | openReadonlyWithWal =>
    dsimp only
    unfold openReadonlyWithWal
    rcases WalInput.open fs call.path with e | input
    · rfl
    simp only [Except.map, WalInput.connect]
    cases openConnection C fs call.engine input.path call.config call.passphrase
      (some (input.frames call.config)) registry <;> rfl
  | snapshot =>
    dsimp only
    unfold WalInput.snapshot WalInput.connect
    rcases WalInput.open fs call.path with e | input
    · rfl
    simp only [Except.map]
    rcases openConnection C fs call.engine input.path call.config call.passphrase
      (some (input.frames call.config)) registry with _ | ⟨_ | _, registry'⟩ <;> rfl

/-- A call without authentication fails alike on every registry and leaves it alone; an authenticated one
is the engine's half of the open, and its end. -/
theorem run_cases :
    (¬ call.Authenticated C fs ∧ ∃ e, ∀ registry, call.run C fs registry = some (.error e, registry)) ∨
      ∃ resolved walPages size salt, call.OpensAs C fs resolved walPages size salt ∧ ∀ registry, ∃ result,
        call.run C fs registry = some (result,
          (attach fs call.engine resolved (call.codecOf C resolved walPages size salt) registry).2) ∧
        ∀ connection, result = .ok connection →
          (attach fs call.engine resolved (call.codecOf C resolved walPages size salt) registry).1 = .ok connection := by
  cases htarget : call.target fs with
  | error e =>
    refine Or.inl ⟨?_, e, fun registry => by rw [call.run_eq, htarget]⟩
    rintro ⟨resolved, walPages, size, salt, ht, -⟩
    rw [htarget] at ht; cases ht
  | ok input =>
    obtain ⟨resolved, walPages⟩ := input
    -- past the checks of the path it is page 1 that decides
    by_cases hauth : ∃ source size salt, Authenticates C fs resolved call.config call.passphrase source size salt
    · obtain ⟨source, size, salt, hauth⟩ := hauth
      refine Or.inr ⟨resolved, walPages, size, salt, ⟨htarget, source, hauth⟩, fun registry => ?_⟩
      rw [call.run_eq, htarget]
      dsimp only
      unfold openConnection
      rw [openCodec_of_authenticates C fs resolved call.config call.passphrase walPages hauth]
      refine ⟨_, rfl, fun connection h => ?_⟩
      cases hatt : (attach fs call.engine resolved (call.codecOf C resolved walPages size salt) registry).1 with
      | error e =>
        have hatt' : (attach fs call.engine resolved
          (Turso.codecOf C resolved call.config call.passphrase walPages size salt).1 registry).1 = .error e := hatt
        simp only [hatt'] at h
        cases h
      | ok opened =>
        have hatt' : (attach fs call.engine resolved
          (Turso.codecOf C resolved call.config call.passphrase walPages size salt).1 registry).1 = .ok opened := hatt
        simp only [hatt'] at h
        rw [← call.finish_eq_ok h]
    · obtain ⟨e, he⟩ := openCodec_eq_error C fs resolved call.config call.passphrase walPages
        fun source size salt h => hauth ⟨source, size, salt, h⟩
      refine Or.inl ⟨?_, e, fun registry => ?_⟩
      · rintro ⟨resolved', walPages', size, salt, ht, source, h⟩
        rw [htarget] at ht
        cases ht
        exact hauth ⟨source, size, salt, h⟩
      · rw [call.run_eq, htarget]
        dsimp only
        unfold openConnection
        rw [he]
        rfl

end Call

/-! ## Runs -/

/-- A process: its registry, and the connections its calls returned, oldest first. -/
structure Process where
  registry : Registry
  opened : List (Call × Connection)

namespace Process

variable (C : Primitives) (fs : FsView)

def step (process : Process) (call : Call) : Option Process := do
  let result ← call.run C fs process.registry
  match result.1 with
  | .error _ => return ⟨result.2, process.opened⟩
  | .ok connection => return ⟨result.2, process.opened ++ [(call, connection)]⟩

/-- The calls one after another, over files that do not change. -/
def run : List Call → Process → Option Process
  | [], process => some process
  | call :: calls, process => do run calls (← process.step C fs call)

/-- Every connection was authenticated by its own call, has the codec of that call, and is attached to an
entry that holds its codec's identity. -/
def Sound (process : Process) : Prop :=
  ∀ opened ∈ process.opened, process.registry opened.2.entry = some opened.2.codec.id ∧
    ∃ resolved walPages size salt, opened.1.OpensAs C fs resolved walPages size salt ∧
      opened.2.codec = opened.1.codecOf C resolved walPages size salt

variable {C fs}

/-- An entry keeps its identity through a call. -/
theorem Sound.mono {process : Process} {registry : Registry} (h : process.Sound C fs)
    (hkeep : ∀ file id, process.registry file = some id → registry file = some id) :
    Sound C fs ⟨registry, process.opened⟩ := by
  intro opened hmem
  obtain ⟨hentry, hopens⟩ := h opened hmem
  exact ⟨hkeep _ _ hentry, hopens⟩

theorem step_sound {process : Process} (h : process.Sound C fs) (call : Call) :
    ∃ process', process.step C fs call = some process' ∧ process'.Sound C fs := by
  unfold step
  rcases call.run_cases C fs with ⟨-, e, hrun⟩ | ⟨resolved, walPages, size, salt, hopens, hrun⟩
  · rw [hrun]
    exact ⟨_, rfl, h⟩
  · obtain ⟨result, hrun, hok⟩ := hrun process.registry
    rw [hrun]
    generalize hcodec : call.codecOf C resolved walPages size salt = codec at hok
    rcases attach_cases fs call.engine resolved codec process.registry with
      ⟨e, hatt⟩ | ⟨attached, registry, hatt, hid, hreg, hconn⟩
    · rw [hatt] at hok ⊢
      cases result with
      | error e => exact ⟨_, rfl, h⟩
      | ok connection => cases hok connection rfl
    · have hkeep : ∀ file id, process.registry file = some id → registry file = some id := by
        intro file id hfile
        rcases hreg with rfl | ⟨hnone, rfl⟩
        · exact hfile
        · -- only a file without an entry gets one
          have hne : file ≠ fs.fileId resolved := by
            rintro rfl
            rw [hnone] at hfile; cases hfile
          rw [Function.update_of_ne hne, hfile]
      rw [hatt] at hok ⊢
      rcases result with e | connection
      · exact ⟨_, rfl, h.mono hkeep⟩
      refine ⟨_, rfl, ?_⟩
      obtain ⟨hcc, hentry⟩ := hconn connection (hok connection rfl)
      intro opened hmem
      rcases List.mem_append.1 hmem with hmem | hmem
      · exact h.mono hkeep opened hmem
      · obtain rfl := List.mem_singleton.1 hmem
        refine ⟨?_, resolved, walPages, size, salt, hopens, hcc.trans hcodec.symm⟩
        show registry connection.entry = some connection.codec.id
        rw [hentry, hid, hcc]

theorem run_sound : ∀ (calls : List Call) {process : Process}, process.Sound C fs →
    ∃ process', process.run C fs calls = some process' ∧ process'.Sound C fs
  | [], process, h => ⟨process, rfl, h⟩
  | call :: calls, process, h => by
    obtain ⟨process', hstep, h'⟩ := step_sound h call
    obtain ⟨process'', hrun, h''⟩ := run_sound calls h'
    refine ⟨process'', ?_, h''⟩
    unfold run
    rw [hstep]
    exact hrun

end Process

/-- The process-wide registry is safe to share. Whatever it holds, a call that returns a connection has
opened page 1 of its main file with its own key; a call that does not, fails as on an empty registry and
leaves the registry alone. And over any run of calls, two connections on one entry have one format, salt
and mode, and with a WAL one main path, unless two identity inputs collide. -/
theorem registry_sharing_is_safe (C : Primitives) (fs : FsView) :
    (∀ (call : Call) (registry registry' : Registry) (connection : Connection),
      call.run C fs registry = some (.ok connection, registry') → ∃ resolved walPages size salt,
        call.OpensAs C fs resolved walPages size salt ∧ connection.codec = call.codecOf C resolved walPages size salt) ∧
    (∀ (call : Call) (registry : Registry), ¬ call.Authenticated C fs → ∃ e,
      call.run C fs registry = some (.error e, registry) ∧
        call.run C fs (fun _ => none) = some (.error e, fun _ => none)) ∧
    ∀ (registry : Registry) (calls : List Call), ∃ process, Process.run C fs calls ⟨registry, []⟩ = some process ∧
      ∀ a ∈ process.opened, ∀ b ∈ process.opened, a.2.entry = b.2.entry →
        ∃ ra wa na sa rb wb nb sb, a.1.OpensAs C fs ra wa na sa ∧ b.1.OpensAs C fs rb wb nb sb ∧
          (DigestCollision C (codecIdInput a.1.config sa wa (wa.map fun _ => ra.bytes))
              (codecIdInput b.1.config sb wb (wb.map fun _ => rb.bytes)) ∨
            a.1.config.pageSize = b.1.config.pageSize ∧ a.1.config.kdfIterations = b.1.config.kdfIterations ∧
              a.1.config.kdfAlgorithm = b.1.config.kdfAlgorithm ∧ a.1.config.hmacAlgorithm = b.1.config.hmacAlgorithm ∧
              sa = sb ∧ wa.isSome = wb.isSome ∧ (wa.isSome → ra = rb)) := by
  refine ⟨fun call registry registry' connection h => ?_, fun call registry hauth => ?_, fun registry calls => ?_⟩
  · rcases call.run_cases C fs with ⟨-, e, hrun⟩ | ⟨resolved, walPages, size, salt, hopens, hrun⟩
    · rw [hrun] at h; cases h
    · obtain ⟨result, hrun, hok⟩ := hrun registry
      rw [hrun] at h
      cases h
      rcases attach_cases fs call.engine resolved (call.codecOf C resolved walPages size salt) registry with
        ⟨e, hatt⟩ | ⟨attached, registry', hatt, -, -, hconn⟩
      · rw [hatt] at hok; cases hok connection rfl
      · rw [hatt] at hok
        exact ⟨resolved, walPages, size, salt, hopens, (hconn connection (hok connection rfl)).1⟩
  · rcases call.run_cases C fs with ⟨-, e, hrun⟩ | ⟨resolved, walPages, size, salt, hopens, -⟩
    · exact ⟨e, hrun registry, hrun _⟩
    · exact absurd ⟨resolved, walPages, size, salt, hopens⟩ hauth
  · have hstart : Process.Sound C fs ⟨registry, []⟩ := by rintro _ ⟨⟩
    obtain ⟨process, hrun, hsound⟩ := Process.run_sound calls hstart
    refine ⟨process, hrun, fun a ha b hb hentry => ?_⟩
    obtain ⟨haid, ra, wa, na, sa, haopens, hacodec⟩ := hsound a ha
    obtain ⟨hbid, rb, wb, nb, sb, hbopens, hbcodec⟩ := hsound b hb
    refine ⟨ra, wa, na, sa, rb, wb, nb, sb, haopens, hbopens, ?_⟩
    have hid : a.2.codec.id = b.2.codec.id := Option.some.inj (haid.symm.trans (hentry ▸ hbid))
    rw [hacodec, hbcodec] at hid
    -- one identity: one input, or two with one digest
    by_cases hinput : codecIdInput a.1.config sa wa (wa.map fun _ => ra.bytes) =
        codecIdInput b.1.config sb wb (wb.map fun _ => rb.bytes)
    · right
      obtain ⟨h1, h2, h3, h4, h5, h6, h7⟩ := codecIdInput_inj hinput
      refine ⟨h1, h2, h3, h4, h5, h6, fun hwal => ?_⟩
      obtain ⟨v, rfl⟩ := Option.isSome_iff_exists.1 hwal
      obtain ⟨w, rfl⟩ := Option.isSome_iff_exists.1 (h6 ▸ hwal)
      exact Core.Path.ext h7
    · exact Or.inl ⟨hinput, congrArg Arr.toList hid⟩

end Veilite.Turso

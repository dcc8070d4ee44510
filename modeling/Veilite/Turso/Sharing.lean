/-
What sharing shares. Over any run of opens, two connections on one entry of the registry have one and the same codec,
so what one of them left in the engine's caches is what the other would have decoded, unless a digest or a key collides.
And what a codec announces to the engine before any page is decoded, every page it decodes bears out.
-/
import Veilite.Core.Authenticity
import Veilite.Turso.Registry

namespace Veilite.Turso

open Buffer Veilite.Core Traverse

/-! ## What a codec announces -/

/-- `turso_core::PageCodecHeaderInfo`. -/
structure PageCodecHeaderInfo where
  pageSize : Nat
  reservedSpace : UInt8
deriving DecidableEq

namespace SqlCipherCodec

variable (codec : SqlCipherCodec)

/-- `self.config.reserve_size() as u8`. -/
def requiredReservedBytes : UInt8 := UInt8.ofNat codec.config.reserveSize

/-- `bootstrap_page_info`, which does not look at the page. -/
def bootstrapPageInfo (_ : Bytes) : Except LimboError PageCodecHeaderInfo :=
  .ok ⟨codec.config.pageSize, codec.requiredReservedBytes⟩

/-- `encode_page`: nothing is written. -/
def encodePage (_ : SqlCipherCodec) (_ : PageCodecContext) (_ output : Bytes) : Filled LimboError UInt8 :=
  ⟨.error .readOnly, zeroize output⟩

/-- The reserve fits the byte it is announced in. -/
theorem requiredReservedBytes_toNat : codec.requiredReservedBytes.toNat = codec.config.reserveSize := by
  unfold requiredReservedBytes
  rcases codec.config.reserveSize_eq with h | h <;> rw [h] <;> rfl

end SqlCipherCodec

/-- Of the codec of any open: the announcement is the same for every raw page; each page it decodes is as long as
announced and zero in the announced reserve, and the header of page 1 names both, so that an engine which compares them
finds them equal; it leaves at least the 480 bytes SQLite asks of a page; and no page is ever encoded. -/
theorem codec_announces_header (C : Primitives) (resolved : Path) (config : CipherConfig) (passphrase : Bytes)
    (walPages : Option Nat) (size : Nat) (salt : Block) :
    let codec := (codecOf C resolved config passphrase walPages size salt).1
    ∃ info : PageCodecHeaderInfo, (∀ raw, codec.bootstrapPageInfo raw = .ok info) ∧
      info.reservedSpace = codec.requiredReservedBytes ∧ info.reservedSpace.toNat + 480 ≤ info.pageSize ∧
      (∀ ctx input output plain, codec.decodePage C ctx input output = some ⟨.ok (), plain⟩ →
        plain.length = info.pageSize ∧
        plain.drop (info.pageSize - info.reservedSpace.toNat) = List.replicate info.reservedSpace.toNat 0 ∧
        (ctx.pageNo = 1 → sqliteHeaderMagic <+: plain ∧
          decodeSqlitePageSize (plain.getD 16 0) (plain.getD 17 0) = info.pageSize ∧
          plain.getD 20 0 = info.reservedSpace)) ∧
      ∀ ctx input output, codec.encodePage ctx input output = ⟨.error .readOnly, List.replicate output.length 0⟩ := by
  intro codec
  have hconfig : codec.config = codec.decoder.config := rfl
  have hreserve := codec.requiredReservedBytes_toNat
  have huse := codec.config.usable_add_reserve
  refine ⟨⟨codec.config.pageSize, codec.requiredReservedBytes⟩, fun _ => rfl, rfl, ?_, ?_, fun _ _ _ => rfl⟩
  · have hps := codec.config.pageSize_ge
    dsimp only
    rw [hreserve]
    rcases codec.config.reserveSize_eq with h | h <;> omega
  intro ctx input output plain h
  rw [codec.decodePage_eq C] at h
  rcases hdecoded : codec.decoded C ctx input output.length with e | page
  · rw [hdecoded] at h
    cases h
  rw [hdecoded] at h
  cases h
  unfold SqlCipherCodec.decoded at hdecoded
  split at hdecoded
  · cases hdecoded
  rcases hpage : NonZeroU32.new ctx.pageNo with _ | pageNo
  · rw [hpage] at hdecoded
    cases hdecoded
  rw [hpage] at hdecoded
  have hopen := mapError_eq_ok_iff.1 hdecoded
  -- a decoded page is one the encoder would have made
  obtain ⟨-, hzero, -, hheader⟩ := codec.decoder.encodePage_of_openPage C hopen
  have hlen := PageDecryptor.length_of_openPage hopen
  rw [← hconfig] at hzero hlen hheader
  have husable : codec.config.pageSize - codec.config.reserveSize = codec.config.usable := by omega
  refine ⟨hlen, by dsimp only; rw [hreserve, husable, hzero], fun h1 => ?_⟩
  have hno : pageNo.get = ctx.pageNo := by
    unfold NonZeroU32.new at hpage
    split at hpage
    · cases hpage
      rfl
    · cases hpage
  obtain ⟨hmagic, hsize, hbyte⟩ := hheader (hno.trans h1)
  exact ⟨hmagic, hsize, UInt8.toNat_inj.1 (hbyte.trans hreserve.symm)⟩

/-! ## One codec for an entry -/

section Sharing

variable {C : Primitives} {fs : FsView}

/-- Two keys that pass for one another on a page 1: different HMAC keys with one tag for its message, or different
encryption keys from which one HMAC key was derived. -/
def KeyCollision (C : Primitives) (config : CipherConfig) (first : Bytes) (a b : KeyMaterial) : Prop :=
  let message := PageDecryptor.macInputOf ⟨config, a⟩ .min first
  a.hmacKey ≠ b.hmacKey ∧ C.hmac config.hmacAlgorithm a.hmacKey message = C.hmac config.hmacAlgorithm b.hmacKey message ∨
    a.encryptionKey ≠ b.encryptionKey ∧ a.hmacKey = b.hmacKey

/-- A call that returned a connection had it attached to the entry of the file it resolved. -/
theorem Call.run_eq_ok {call : Call} {registry registry' : Registry} {connection : Connection}
    (h : call.run C fs registry = some (.ok connection, registry')) : ∃ resolved walPages size salt,
      call.OpensAs C fs resolved walPages size salt ∧ connection.codec = call.codecOf C resolved walPages size salt ∧
      connection.entry = fs.fileId resolved := by
  rcases call.run_cases C fs with ⟨-, e, hrun⟩ | ⟨resolved, walPages, size, salt, hopens, hrun⟩
  · rw [hrun] at h
    cases h
  · obtain ⟨result, hrun, hok⟩ := hrun registry
    rw [hrun] at h
    cases h
    rcases attach_cases fs call.engine resolved (call.codecOf C resolved walPages size salt) registry with
      ⟨e, hatt⟩ | ⟨attached, registry', hatt, -, -, hconn⟩
    · rw [hatt] at hok
      cases hok connection rfl
    · rw [hatt] at hok
      exact ⟨resolved, walPages, size, salt, hopens, hconn connection (hok connection rfl)⟩

/-- Every connection of the process is on the entry of the file its call resolved, with that call's codec. -/
def Process.Placed (C : Primitives) (fs : FsView) (process : Process) : Prop :=
  ∀ opened ∈ process.opened, ∃ resolved walPages size salt, opened.1.OpensAs C fs resolved walPages size salt ∧
    opened.2.codec = opened.1.codecOf C resolved walPages size salt ∧ opened.2.entry = fs.fileId resolved

theorem Process.step_placed {process process' : Process} {call : Call} (h : process.Placed C fs)
    (hstep : process.step C fs call = some process') : process'.Placed C fs := by
  unfold Process.step at hstep
  obtain ⟨⟨result, registry⟩, hrun, hstep⟩ := Option.bind_eq_some_iff.1 hstep
  rcases result with e | connection
  · cases hstep
    exact h
  · cases hstep
    intro opened hmem
    rcases List.mem_append.1 hmem with hmem | hmem
    · exact h opened hmem
    · obtain rfl := List.mem_singleton.1 hmem
      exact Call.run_eq_ok hrun

theorem Process.run_placed {calls : List Call} : ∀ {process process' : Process}, process.Placed C fs →
    process.run C fs calls = some process' → process'.Placed C fs := by
  induction calls with
  | nil =>
    rintro process process' h ⟨⟩
    exact h
  | cons call calls ih =>
    intro process process' h hrun
    obtain ⟨next, hstep, hrun⟩ := Option.bind_eq_some_iff.1 hrun
    exact ih (step_placed h hstep) hrun

/-- The size of the WAL is that of the file beside the canonical path. -/
theorem WalInput.open_walSize {path : Path} {input : WalInput} (h : WalInput.open fs path = .ok input) :
    ∃ metadata, fs.metadata (companion input.path walSuffix) = .ok metadata ∧ metadata.len = input.walSize := by
  unfold WalInput.open at h
  simp only [bind_eq_ok_iff, guard_eq_ok_iff, mapError_eq_ok_iff] at h
  obtain ⟨_, -, resolved, -, _, -, main, -, -, metadata, hwal, -, h⟩ := h
  rcases hlookup : fs.symlinkMetadata (companion path walSuffix) with e | own
  · rw [hlookup] at h
    obtain ⟨-, h⟩ := guard_eq_ok_iff.1 h
    obtain ⟨-, h⟩ := guard_eq_ok_iff.1 h
    cases h
    exact ⟨metadata, hwal, rfl⟩
  · rw [hlookup] at h
    obtain ⟨_, -, h⟩ := bind_eq_ok_iff.1 h
    obtain ⟨_, -, h⟩ := bind_eq_ok_iff.1 h
    obtain ⟨-, h⟩ := guard_eq_ok_iff.1 h
    obtain ⟨-, h⟩ := guard_eq_ok_iff.1 h
    cases h
    exact ⟨metadata, hwal, rfl⟩

/-- A WAL bound is a function of the canonical path and the configuration. -/
theorem Call.walPages_of_target {call : Call} {resolved : Path} {frames : Nat}
    (h : call.target fs = .ok (resolved, some frames)) : ∃ metadata,
      fs.metadata (companion resolved walSuffix) = .ok metadata ∧
      WalInput.frames ⟨resolved, metadata.len⟩ call.config = frames := by
  have hwal : (WalInput.open fs call.path).map (fun input => (input.path, some (input.frames call.config))) =
      .ok (resolved, some frames) := by
    unfold Call.target at h
    cases hentrance : call.entrance with
    | openReadonly =>
      rw [hentrance] at h
      rcases hmain : resolveMain fs call.path call.passphrase with e | path
      · rw [hmain] at h
        cases h
      · rw [hmain] at h
        cases h
    | openReadonlyWithWal => rwa [hentrance] at h
    | snapshot => rwa [hentrance] at h
  rcases hopen : WalInput.open fs call.path with e | input
  · rw [hopen] at hwal
    cases hwal
  rw [hopen] at hwal
  cases hwal
  obtain ⟨metadata, hmetadata, hlen⟩ := WalInput.open_walSize hopen
  exact ⟨metadata, hmetadata, by rw [hlen]⟩

/-- Two opens of one file whose identities digest the same bytes have one codec, or page 1 passed under two keys. -/
theorem Call.codecOf_eq_or_collision {a b : Call} {ra rb : Path} {wa wb : Option Nat} {na nb : Nat} {sa sb : Block}
    (ha : a.OpensAs C fs ra wa na sa) (hb : b.OpensAs C fs rb wb nb sb)
    (hfile : ∀ source source', fs.openFile ra = .ok source → fs.openFile rb = .ok source' → source = source')
    (hinput : codecIdInput a.config sa wa (wa.map fun _ => ra.bytes) =
      codecIdInput b.config sb wb (wb.map fun _ => rb.bytes)) :
    a.codecOf C ra wa na sa = b.codecOf C rb wb nb sb ∨ ∃ source first, fs.openFile ra = .ok source ∧
      (source.readExactAt 0 (List.replicate a.config.pageSize 0) ()).1 = ⟨.ok (), first⟩ ∧
      KeyCollision C a.config first (.derive C a.config a.passphrase sa) (.derive C b.config b.passphrase sb) := by
  obtain ⟨htargetA, source, hauthA⟩ := ha
  obtain ⟨htargetB, source', hauthB⟩ := hb
  obtain rfl := hfile source source' hauthA.opened hauthB.opened
  obtain ⟨h1, h2, h3, h4, rfl, hmode, hpath⟩ := codecIdInput_inj hinput
  have hconfig : b.config = a.config := CipherConfig.ext h1.symm h2.symm h3.symm h4.symm
  -- one configuration, one source: one length and one page 1
  obtain ⟨first, plainA, hreadA, hsalt, hpageA⟩ := hauthA.page
  obtain ⟨_, plainB, hreadB, -, hpageB⟩ := hauthB.page
  rw [hconfig] at hreadB hpageB ⊢
  obtain ⟨-, rfl⟩ := Filled.mk.inj (hreadA.symm.trans hreadB)
  obtain rfl : na = nb := Except.ok.inj (hauthA.len.symm.trans hauthB.len)
  have hwal : wa = wb ∧ (wa.map fun _ => ra.bytes) = wb.map fun _ => rb.bytes := by
    rcases wa with _ | v
    · rcases wb with _ | w
      · exact ⟨rfl, rfl⟩
      · cases hmode
    rcases wb with _ | w
    · cases hmode
    obtain rfl : ra = rb := Core.Path.ext hpath
    obtain ⟨metadata, hmetadata, hv⟩ := Call.walPages_of_target htargetA
    obtain ⟨metadata', hmetadata', hw⟩ := Call.walPages_of_target htargetB
    rw [hmetadata] at hmetadata'
    cases hmetadata'
    rw [← hv, ← hw, hconfig]
    exact ⟨rfl, rfl⟩
  by_cases hkeys : KeyMaterial.derive C a.config a.passphrase sa = KeyMaterial.derive C a.config b.passphrase sa
  · left
    unfold Call.codecOf Turso.codecOf
    rw [hconfig, hkeys, hwal.2, hwal.1]
  right
  refine ⟨source, first, hauthA.opened, hreadA, ?_⟩
  generalize KeyMaterial.derive C a.config a.passphrase sa = keysA at hpageA hkeys
  generalize KeyMaterial.derive C a.config b.passphrase sa = keysB at hpageB hkeys
  by_cases hmacKey : keysA.hmacKey = keysB.hmacKey
  · refine .inr ⟨fun hencryption => hkeys ?_, hmacKey⟩
    cases keysA
    cases keysB
    cases hmacKey
    cases hencryption
    rfl
  refine .inl ⟨hmacKey, ?_⟩
  rw [PageDecryptor.decryptPageInPlace_eq, Option.some.injEq, Filled.closed_eq_ok_iff] at hpageA hpageB
  have htagA := (PageDecryptor.authentic_of_openPage hpageA).tag
  have htagB := (PageDecryptor.authentic_of_openPage hpageB).tag
  exact Arr.ext (htagA.trans htagB.symm)

end Sharing

/-- One codec for an entry. While the files hold still, over any run of opens in one process, through whichever entrance
and whatever the registry held before, the connections on one entry have one and the same codec, keys, bounds and all:
what one of them decoded into the engine's caches is what the other would decode. The exceptions are exhibited: two
identity inputs with one digest, or a page 1 that passes under two keys. -/
theorem shared_entry_has_one_codec (C : Primitives) (fs : FsView)
    (hlinks : ∀ p q source source', fs.fileId p = fs.fileId q → fs.openFile p = .ok source → fs.openFile q = .ok source' →
      source = source') (registry : Registry) (calls : List Call) :
    ∃ process, Process.run C fs calls ⟨registry, []⟩ = some process ∧
      ∀ a ∈ process.opened, ∀ b ∈ process.opened, a.2.entry = b.2.entry → a.2.codec = b.2.codec ∨
        ∃ ra wa na sa rb wb nb sb, a.1.OpensAs C fs ra wa na sa ∧ b.1.OpensAs C fs rb wb nb sb ∧
          (DigestCollision C (codecIdInput a.1.config sa wa (wa.map fun _ => ra.bytes))
              (codecIdInput b.1.config sb wb (wb.map fun _ => rb.bytes)) ∨
            ∃ source first, fs.openFile ra = .ok source ∧
              (source.readExactAt 0 (List.replicate a.1.config.pageSize 0) ()).1 = ⟨.ok (), first⟩ ∧
              KeyCollision C a.1.config first (.derive C a.1.config a.1.passphrase sa)
                (.derive C b.1.config b.1.passphrase sb)) := by
  have hsound : Process.Sound C fs ⟨registry, []⟩ := by rintro _ ⟨⟩
  have hplaced : Process.Placed C fs ⟨registry, []⟩ := by rintro _ ⟨⟩
  obtain ⟨process, hrun, hsound⟩ := Process.run_sound calls hsound
  have hplaced := Process.run_placed hplaced hrun
  refine ⟨process, hrun, fun a ha b hb hentry => ?_⟩
  obtain ⟨ra, wa, na, sa, haopens, hacodec, haentry⟩ := hplaced a ha
  obtain ⟨rb, wb, nb, sb, hbopens, hbcodec, hbentry⟩ := hplaced b hb
  have hid : a.2.codec.id = b.2.codec.id :=
    Option.some.inj ((hsound a ha).1.symm.trans (hentry ▸ (hsound b hb).1))
  by_cases hinput : codecIdInput a.1.config sa wa (wa.map fun _ => ra.bytes) =
      codecIdInput b.1.config sb wb (wb.map fun _ => rb.bytes)
  · have hfile : fs.fileId ra = fs.fileId rb := haentry.symm.trans (hentry.trans hbentry)
    rcases Call.codecOf_eq_or_collision haopens hbopens (hlinks ra rb · · hfile) hinput with hcodec | hcollision
    · exact .inl (hacodec.trans (hcodec.trans hbcodec.symm))
    · exact .inr ⟨ra, wa, na, sa, rb, wb, nb, sb, haopens, hbopens, .inr hcollision⟩
  · rw [hacodec, hbcodec] at hid
    exact .inr ⟨ra, wa, na, sa, rb, wb, nb, sb, haopens, hbopens, .inl ⟨hinput, congrArg Arr.toList hid⟩⟩

/-- An engine that fails nowhere and finds its pages empty. -/
def Engine.idle : Engine where
  platformIo := none
  openDatabase := none
  codecMismatch := .other 0
  connect := none
  beginRead := none
  pageCount := .ok 1
  readPage _ _ := .ok []

def sampleCall (passphrase : Bytes) : Call := ⟨.openReadonly, samplePath, sampleConfig, passphrase, .idle⟩

/-- The sample database opened twice with its passphrase and once with another. -/
theorem shared_entry_has_one_codec_sample :
    let calls := [sampleCall samplePassphrase, sampleCall [0], sampleCall samplePassphrase]
    ∃ process, Process.run sample sampleFs calls ⟨fun _ => none, []⟩ = some process ∧
      ∀ a ∈ process.opened, ∀ b ∈ process.opened, a.2.entry = b.2.entry → a.2.codec = b.2.codec ∨
        ∃ ra wa na sa rb wb nb sb, a.1.OpensAs sample sampleFs ra wa na sa ∧ b.1.OpensAs sample sampleFs rb wb nb sb ∧
          (DigestCollision sample (codecIdInput a.1.config sa wa (wa.map fun _ => ra.bytes))
              (codecIdInput b.1.config sb wb (wb.map fun _ => rb.bytes)) ∨
            ∃ source first, sampleFs.openFile ra = .ok source ∧
              (source.readExactAt 0 (List.replicate a.1.config.pageSize 0) ()).1 = ⟨.ok (), first⟩ ∧
              KeyCollision sample a.1.config first (.derive sample a.1.config a.1.passphrase sa)
                (.derive sample b.1.config b.1.passphrase sb)) := by
  intro calls
  refine shared_entry_has_one_codec sample sampleFs (fun p q source source' _ hp hq => ?_) (fun _ => none) calls
  -- there is one file
  have hopen : ∀ {path source}, sampleFs.openFile path = .ok source → source = FileSource samplePage := by
    intro path source h
    simp only [sampleFs, FsView.flat] at h
    split at h
    · exact (Except.ok.inj h).symm
    · cases h
  rw [hopen hp, hopen hq]

end Veilite.Turso

/-
The calls a range read makes to its source. A traced source answers as the source does and keeps a list of its
calls; a reader opened over it shows what a range costs: one read for each page, in ascending order, up to the
first page that fails.
-/
import Veilite.Core.File

namespace Veilite.Core

open Buffer

/-- A call to a source. -/
inductive SourceCall
  | len
  | read (offset length : Nat)
deriving DecidableEq, Repr

/-- The source with a list of the calls made to it. -/
def ReadAt.traced {σ E : Type} (source : ReadAt σ E) : ReadAt (σ × List SourceCall) E where
  readExactAt offset output s :=
    let read := source.readExactAt offset output s.1
    (read.1, (read.2, s.2 ++ [.read offset output.length]))
  len s :=
    let length := source.len s.1
    (length.1, (length.2, s.2 ++ [.len]))
  length_readExactAt offset output s := source.length_readExactAt offset output s.1

namespace SqlCipherReader

section Page

variable {σ E : Type} (C : Primitives) (r : SqlCipherReader σ E)

/-- The read of a page. -/
def pageCall (pageNo : NonZeroU32) : SourceCall := .read ((pageNo.get - 1) * r.pageSize) r.pageSize

/-- A page in range fails as the source or the decryption does. -/
theorem fetchPage_error {pageNo : NonZeroU32} (h : pageNo.get ≤ r.pageCount) {s : σ} {e : ReaderError E}
    (hfail : (r.fetchPage C pageNo s).1 = .error e) : (∃ error, e = .source error) ∨ ∃ error, e = .decrypt error := by
  unfold fetchPage at hfail
  rw [if_neg (by omega)] at hfail
  simp only at hfail
  split at hfail
  · cases hfail
    exact .inl ⟨_, rfl⟩
  · split at hfail
    · cases hfail
      exact .inr ⟨_, rfl⟩
    · cases hfail

/-- The loop needs a round for each page the rest of the range touches. -/
theorem copyPages_isSome (offset : Nat) : ∀ (fuel x done : Nat) (scratch output : Bytes) (s : σ),
    scratch.length = r.pageSize → done ≤ output.length → x + (output.length - done) ≤ r.fileSize →
    ((r.store C).touched x (output.length - done)).length ≤ fuel →
    (r.copyPages C offset fuel x done scratch output s).isSome = true := by
  intro fuel
  induction fuel with
  | zero =>
    intro x done scratch output s _ hdone _ hfuel
    have hend : output.length ≤ done := by
      by_contra hlt
      rw [(r.store C).touched_step (by omega), List.length_cons] at hfuel
      omega
    rw [r.copyPages_done C offset 0 x scratch s hend]
    rfl
  | succ fuel ih =>
    intro x done scratch output s hscratch hdone hin hfuel
    rcases hdone.eq_or_lt with hend | hlt
    · rw [r.copyPages_done C offset (fuel + 1) x scratch s hend.ge]
      rfl
    -- every round takes one page off the range
    rw [(r.store C).touched_step (by omega), List.length_cons] at hfuel
    rw [r.copyPages_step C offset fuel s hscratch hlt hin]
    have hmod : x % r.pageSize < r.pageSize := Nat.mod_lt x r.decryptor.config.pageSize_pos
    generalize hcopy : min (r.pageSize - x % r.pageSize) (output.length - done) = copyLength
    rw [show (r.store C).size = r.pageSize from rfl, hcopy] at hfuel
    have hcl : 0 < copyLength ∧ copyLength ≤ r.pageSize - x % r.pageSize ∧ copyLength ≤ output.length - done := by omega
    simp only
    rcases hf : (r.store C).fetch (x / r.pageSize) s with ⟨e | p, s1⟩
    · rfl
    have hp : p.length = r.pageSize := (r.store C).length_fetch (by rw [hf])
    have hrange : ((p.drop (x % r.pageSize)).take copyLength).length = copyLength := by
      rw [List.length_take, List.length_drop, hp]
      omega
    have hlen : (output.take done ++ (p.drop (x % r.pageSize)).take copyLength ++
        output.drop (done + copyLength)).length = output.length := by
      rw [List.length_append, List.length_append, hrange, List.length_take, List.length_drop]
      omega
    apply ih _ _ _ _ _ hp
    · rw [hlen]
      omega
    · rw [hlen]
      omega
    · rw [hlen, ← Nat.sub_sub]
      omega

/-- The pages a range inside the file overlaps, in ascending order. -/
theorem exists_pages {offset length : Nat} (hlen : 0 < length) (hin : offset + length ≤ r.fileSize) :
    ∃ pages : List NonZeroU32, pages.map (fun pageNo => pageNo.get - 1) = (r.store C).touched offset length ∧
      pages.Pairwise (fun a b => a.get < b.get) ∧ ∀ pageNo, pageNo ∈ pages ↔
        (pageNo.get - 1) * r.pageSize < offset + length ∧ offset < pageNo.get * r.pageSize := by
  have hcount : ∀ i ∈ (r.store C).touched offset length, i + 1 < 2 ^ 32 := by
    intro i hi
    have hlt := (((r.store C).mem_touched hlen).1 hi).1
    have : i < r.pageCount := by
      apply Nat.lt_of_mul_lt_mul_right (a := r.pageSize)
      rw [r.fileSize_eq]
      exact Nat.lt_of_lt_of_le hlt hin
    have := r.pageCount_lt
    omega
  refine ⟨((r.store C).touched offset length).pmap (fun i h => ⟨i + 1, Nat.succ_pos i, h⟩) hcount, ?_, ?_, ?_⟩
  · rw [List.map_pmap]
    simp
  · apply List.Pairwise.pmap ((r.store C).touched_pairwise offset length)
    intro i hi j hj hij
    exact Nat.succ_lt_succ hij
  · intro pageNo
    have hpos := pageNo.pos
    have hpage : pageNo.get - 1 + 1 = pageNo.get := Nat.sub_add_cancel hpos
    have hmem : pageNo.get - 1 ∈ (r.store C).touched offset length ↔ _ := (r.store C).mem_touched hlen
    rw [hpage, show (r.store C).size = r.pageSize from rfl] at hmem
    rw [← hmem, List.mem_pmap]
    constructor
    · rintro ⟨i, hi, rfl⟩
      exact hi
    · intro hi
      exact ⟨_, hi, NonZeroU32.ext hpage⟩

end Page

/-! ## Traced reads -/

variable {σ E : Type} (C : Primitives) {source : ReadAt σ E} {r : SqlCipherReader (σ × List SourceCall) E}

/-- A page in range costs one read of it, whatever it gives. -/
theorem fetchPage_traced (hsource : r.source = source.traced) {pageNo : NonZeroU32} (h : pageNo.get ≤ r.pageCount)
    (s : σ × List SourceCall) : (r.fetchPage C pageNo s).2.2 = s.2 ++ [r.pageCall pageNo] := by
  have hread : ∀ output, (r.source.readExactAt ((pageNo.get - 1) * r.pageSize) output s).2.2 =
      s.2 ++ [.read ((pageNo.get - 1) * r.pageSize) output.length] := by
    rw [hsource]
    exact fun output => rfl
  unfold fetchPage pageCall
  rw [if_neg (by omega)]
  simp only
  split
  · rw [hread, List.length_replicate]
  · split <;> rw [hread, List.length_replicate]

/-- The reads of a range inside the file: each of its pages if all are there, else up to the first that is not. -/
theorem readRange_traced (hsource : r.source = source.traced) {offset length : Nat} {pages : List NonZeroU32}
    (hpages : pages.map (fun pageNo => pageNo.get - 1) = (r.store C).touched offset length)
    (hle : ∀ pageNo ∈ pages, pageNo.get ≤ r.pageCount) (s : σ × List SourceCall) :
    (∃ bytes s', (r.store C).readRange offset length s = (.ok bytes, s') ∧ s'.2 = s.2 ++ pages.map r.pageCall) ∨
      ∃ done failed rest plains s1 e s', pages = done ++ failed :: rest ∧
        (r.store C).fetchAll (done.map fun pageNo => pageNo.get - 1) s = (.ok plains, s1) ∧
        r.fetchPage C failed s1 = (.error e, s') ∧ (r.store C).readRange offset length s = (.error e, s') ∧
        s'.2 = s.2 ++ (done ++ [failed]).map r.pageCall := by
  have hlog : ∀ i ∈ pages.map (fun pageNo => pageNo.get - 1), ∀ s : σ × List SourceCall,
      ((r.store C).fetch i s).2.2 = s.2 ++ [.read (i * r.pageSize) r.pageSize] := by
    intro i hi s
    obtain ⟨pageNo, hmem, rfl⟩ := List.mem_map.1 hi
    rw [r.store_fetch_page C]
    exact fetchPage_traced C hsource (hle pageNo hmem) s
  have hentries : ∀ l : List NonZeroU32, (l.map fun pageNo => pageNo.get - 1).map (fun i =>
      SourceCall.read (i * r.pageSize) r.pageSize) = l.map r.pageCall := by
    intro l
    rw [List.map_map]
    rfl
  unfold Paged.Store.readRange
  rw [← hpages]
  -- all pages, or those before the failing one and that one
  rcases (r.store C).fetchAll_logged hlog s with
    ⟨plains, s', hall, hlogged⟩ | ⟨before, i, after, plains, s1, e, s', hsplit, hdone, hfail, hall, hlogged⟩
  · left
    rw [hall]
    rw [hentries] at hlogged
    exact ⟨_, s', rfl, hlogged⟩
  · right
    obtain ⟨done, rest, rfl, rfl, hrest⟩ := List.map_eq_append_iff.1 hsplit
    obtain ⟨failed, rest, rfl, rfl, rfl⟩ := List.map_eq_cons_iff.1 hrest
    rw [r.store_fetch_page C] at hfail
    have hcalls := hentries (done ++ [failed])
    rw [List.map_append] at hcalls
    refine ⟨done, failed, rest, plains, s1, e, s', rfl, hdone, hfail, ?_, ?_⟩
    · rw [hall]
    · rw [hlogged, ← hcalls]
      rfl

/-- What a range costs a reader that `open` returned. A range past `u64::MAX` or past the file is refused
without a read. A range inside is read page by page in ascending order, each page once and inside the file, up
to the first page that fails; nothing but the source and the decryption can fail, and the loop takes no more
rounds than there are pages. -/
theorem readExactAt_trace {config : CipherConfig} {passphrase : Bytes} {s0 s1 : σ × List SourceCall}
    (hopen : SqlCipherReader.open C source.traced config passphrase s0 = (.ok r, s1)) (offset : Nat) {output : Bytes}
    (hne : output ≠ []) (s : σ × List SourceCall) :
    (2 ^ 64 ≤ offset + output.length → r.readExactAt C offset output s =
      some (⟨.error (.offsetOverflow offset output.length), zeroize output⟩, s)) ∧
    (offset + output.length < 2 ^ 64 → r.fileSize < offset + output.length → r.readExactAt C offset output s =
      some (⟨.error (.unexpectedEof offset output.length r.fileSize), zeroize output⟩, s)) ∧
    (offset + output.length ≤ r.fileSize → ∃ pages read s',
      pages.Pairwise (fun a b => a.get < b.get) ∧
      (∀ pageNo, pageNo ∈ pages ↔ (pageNo.get - 1) * r.pageSize < offset + output.length ∧ offset < pageNo.get * r.pageSize) ∧
      r.readExactAt C offset output s = some (read, s') ∧
      (read.result = .ok () ∧ s'.2 = s.2 ++ pages.map r.pageCall ∨
        ∃ done failed rest plains s2 e, pages = done ++ failed :: rest ∧
          (r.store C).fetchAll (done.map fun pageNo => pageNo.get - 1) s = (.ok plains, s2) ∧
          r.fetchPage C failed s2 = (.error e, s') ∧ read.result = .error e ∧
          ((∃ error, e = .source error) ∨ ∃ error, e = .decrypt error) ∧
          s'.2 = s.2 ++ (done ++ [failed]).map r.pageCall) ∧
      (∀ pageNo ∈ pages, (pageNo.get - 1) * r.pageSize + r.pageSize ≤ r.fileSize) ∧
      (r.copyPages C offset pages.length offset 0 (List.replicate r.pageSize 0) (zeroize output) s).isSome = true) := by
  have hsource := (open_eq_ok C hopen).1
  have hlen : 0 < output.length := List.length_pos_iff.2 hne
  have hfile := r.fileSize_lt
  refine ⟨?_, ?_, ?_⟩
  · intro hover
    rw [r.readExactAt_eq C hne, fetchRange, if_pos hover]
    rfl
  · intro hlt heof
    rw [r.readExactAt_eq C hne, fetchRange, if_neg (by omega), if_pos heof]
    rfl
  · intro hin
    obtain ⟨pages, hpages, hsorted, hmem⟩ := r.exists_pages C hlen hin
    -- what the range overlaps is in the file
    have hle : ∀ pageNo ∈ pages, pageNo.get ≤ r.pageCount := by
      intro pageNo h
      have hlt : (pageNo.get - 1) * r.pageSize < r.pageCount * r.pageSize := by
        rw [r.fileSize_eq]
        exact Nat.lt_of_lt_of_le ((hmem pageNo).1 h).1 hin
      have := Nat.lt_of_mul_lt_mul_right hlt
      omega
    have hrange : r.fetchRange C offset output.length s = (r.store C).readRange offset output.length s := by
      rw [fetchRange, if_neg (by omega), if_neg (by omega)]
    have hread : r.readExactAt C offset output s = _ := r.readExactAt_eq C hne s
    rw [hrange] at hread
    refine ⟨pages, _, _, hsorted, hmem, hread, ?_, fun pageNo h => r.page_offset_lt (hle pageNo h), ?_⟩
    · rcases readRange_traced C hsource hpages hle s with
        ⟨bytes, s', hok, hcalls⟩ | ⟨done, failed, rest, plains, s2, e, s', rfl, hdone, hfail, herror, hcalls⟩
      · left
        rw [hok]
        exact ⟨rfl, hcalls⟩
      · right
        rw [herror]
        refine ⟨done, failed, rest, plains, s2, e, rfl, hdone, hfail, rfl, ?_, hcalls⟩
        exact r.fetchPage_error C (hle failed (by simp)) (congrArg Prod.fst hfail)
    · apply r.copyPages_isSome C
      · exact List.length_replicate
      · exact Nat.zero_le _
      · rw [length_fill]
        omega
      · rw [length_fill, Nat.sub_zero, ← hpages, List.length_map]

theorem open_sample_traced : ∃ r s1, SqlCipherReader.open sample (FileSource samplePage).traced sampleConfig
    samplePassphrase ((), []) = (.ok r, s1) ∧ r.fileSize = 1024 := by
  have hlen : (FileSource samplePage).traced.len ((), []) = (.ok (1 * sampleConfig.pageSize), ((), [.len])) := by
    show ((.ok samplePage.length, _) : Except IoError Nat × _) = _
    rw [length_samplePage]
    rfl
  have hread : (FileSource samplePage).traced.readExactAt 0 (List.replicate databaseSaltSize 0) ((), [.len]) =
      (⟨.ok (), sampleSalt.toList⟩, ((), [.len, .read 0 16])) := by
    simp only [ReadAt.traced]
    rw [FileSource.readExactAt_eq (by rw [List.length_replicate, length_samplePage]; decide), List.length_replicate]
    exact congrArg (fun salt => (Filled.mk (.ok ()) salt, _)) (by decide +kernel)
  obtain ⟨r, hopen, -, hdec, hcount⟩ := open_of_reads sample (by decide : samplePassphrase ≠ []) hlen Nat.one_pos
    (by decide) hread
  refine ⟨r, _, hopen, ?_⟩
  rw [← r.fileSize_eq, hcount, hdec]
  rfl

/-- Two bytes of the one page cost one read of it. -/
theorem readExactAt_trace_sample : ∃ r s0, SqlCipherReader.open sample (FileSource samplePage).traced sampleConfig
    samplePassphrase ((), []) = (.ok r, s0) ∧ ∃ pages : List NonZeroU32, ∀ pageNo, pageNo ∈ pages ↔
      (pageNo.get - 1) * r.pageSize < 1024 ∧ 1022 < pageNo.get * r.pageSize := by
  obtain ⟨r, s0, hopen, hsize⟩ := open_sample_traced
  obtain ⟨pages, -, -, -, hmem, -⟩ := (readExactAt_trace sample hopen 1022 (List.cons_ne_nil 0 [0]) ((), [])).2.2
    (by rw [hsize]; decide)
  exact ⟨r, s0, hopen, pages, hmem⟩

end SqlCipherReader

end Veilite.Core

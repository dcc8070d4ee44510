/-
Files an adversary puts together. Against the versions of a database that were written under one salt and passphrase,
an accepted file is page after page either what some version has at that very number, with that version's plaintext,
or a page whose tag is valid for a message none of them contains. Conversely every such composition is accepted: what
authenticates is the page at its number, not the file.
-/
import Veilite.Core.Authenticity
import Veilite.Core.Format

namespace Veilite.Core

open Buffer PageDecryptor

/-- Two pages with the same content, IV and tag. -/
structure SameSealed (config : CipherConfig) (pageNo : NonZeroU32) (a b : Bytes) : Prop where
  ciphertext : config.ciphertextOf pageNo a = config.ciphertextOf pageNo b
  iv : config.ivOf a = config.ivOf b
  tag : config.tagOf a = config.tagOf b

section Tampering

variable (C : Primitives) (config : CipherConfig) (passphrase : Bytes) (versions : Set Bytes) (salt : Block) (content : Bytes)

/-- The versions written under the salt. -/
def Keyed (version : Bytes) : Prop := version ∈ versions ∧ version.take 16 = salt.toList

/-- The page of the file is the page some version has at the number. -/
def Spliced (pageNo : NonZeroU32) : Prop :=
  ∃ version, Keyed versions salt version ∧ pageNo.get * config.pageSize ≤ version.length ∧
    SameSealed config pageNo (pageOf config.pageSize content pageNo) (pageOf config.pageSize version pageNo)

/-- The page of the file opens, and what its tag authenticates is nothing any version contains, at any number. -/
def Forged (pageNo : NonZeroU32) : Prop :=
  let d : PageDecryptor := ⟨config, .derive C config passphrase salt⟩
  (∃ plain, d.openPage C pageNo (pageOf config.pageSize content pageNo) = .ok plain) ∧
    ∀ version, Keyed versions salt version → ∀ other : NonZeroU32, other.get * config.pageSize ≤ version.length →
      d.macInputOf other (pageOf config.pageSize version other) ≠ d.macInputOf pageNo (pageOf config.pageSize content pageNo)

end Tampering

section Accepted

variable {C : Primitives} {config : CipherConfig} {passphrase : Bytes} {versions : Set Bytes} {salt : Block} {content : Bytes}

/-- Pages with the same content, IV and tag open alike. -/
theorem SameSealed.openPage {d : PageDecryptor} {pageNo : NonZeroU32} {a b : Bytes} (h : SameSealed d.config pageNo a b)
    (ha : a.length = d.config.pageSize) (hb : b.length = d.config.pageSize) : d.openPage C pageNo a = d.openPage C pageNo b :=
  openPage_congr ha hb h.ciphertext h.iv h.tag

/-- A page that opens for the message of a version's page is that page, and nowhere else. -/
theorem sameSealed_of_macInput {d : PageDecryptor} {m n : NonZeroU32} {a b : Bytes} (ha : d.Authentic C m a)
    (hb : d.Authentic C n b) (h : d.macInputOf m a = d.macInputOf n b) : m = n ∧ SameSealed d.config n a b := by
  obtain ⟨rfl, hct, hiv⟩ := macInputOf_inj ha.1 hb.1 h
  exact ⟨rfl, hct, hiv, by rw [← ha.tag, ← hb.tag, h]⟩

/-- The pages of an accepted file open to the pages of its plaintext. -/
theorem Accepts.openPage {plain : Bytes} (h : Accepts C config passphrase content plain) (hsalt : content.take 16 = salt.toList)
    {pageNo : NonZeroU32} (hle : pageNo.get * config.pageSize ≤ content.length) :
    PageDecryptor.openPage C ⟨config, .derive C config passphrase salt⟩ pageNo (pageOf config.pageSize content pageNo) =
      .ok (pageOf config.pageSize plain pageNo) := by
  obtain ⟨salt', count, hsalt', hlen, hpos, hlt⟩ := h.whole
  obtain rfl : salt' = salt := Arr.ext (hsalt'.trans hsalt)
  refine ((accepts_iff_pages hsalt' hlen hpos hlt).1 h).2.2 pageNo ?_
  exact Nat.le_of_mul_le_mul_right (hlen ▸ hle) config.pageSize_pos

/-- Where two accepted files have one salt and the same page, they have the same plaintext. -/
theorem SameSealed.plain_eq {other plain plain' : Bytes} (hsalts : content.take 16 = other.take 16)
    (hplain : Accepts C config passphrase content plain) (hother : Accepts C config passphrase other plain')
    {pageNo : NonZeroU32} (hc : pageNo.get * config.pageSize ≤ content.length)
    (ho : pageNo.get * config.pageSize ≤ other.length)
    (h : SameSealed config pageNo (pageOf config.pageSize content pageNo) (pageOf config.pageSize other pageNo)) :
    pageOf config.pageSize plain pageNo = pageOf config.pageSize plain' pageNo := by
  obtain ⟨salt, -, hsalt, -⟩ := hplain.whole
  have hopen := hplain.openPage hsalt.symm hc
  rw [SameSealed.openPage (d := ⟨config, .derive C config passphrase salt⟩) h (length_pageOf hc) (length_pageOf ho),
    hother.openPage (hsalts ▸ hsalt.symm) ho] at hopen
  exact (Except.ok.inj hopen).symm

/-- A spliced page opens. -/
theorem Spliced.opens (hversions : ∀ version ∈ versions, ∃ plain, Accepts C config passphrase version plain)
    {pageNo : NonZeroU32} (hle : pageNo.get * config.pageSize ≤ content.length)
    (h : Spliced config versions salt content pageNo) :
    ∃ plain, PageDecryptor.openPage C ⟨config, .derive C config passphrase salt⟩ pageNo (pageOf config.pageSize content pageNo) =
      .ok plain := by
  obtain ⟨version, ⟨hmem, hsalt⟩, hv, hsame⟩ := h
  obtain ⟨plain, hplain⟩ := hversions version hmem
  refine ⟨pageOf config.pageSize plain pageNo, ?_⟩
  rw [SameSealed.openPage (d := ⟨config, .derive C config passphrase salt⟩) hsame (length_pageOf hle) (length_pageOf hv),
    hplain.openPage hsalt hv]

/-- A page that opens is spliced or forged: what its tag authenticates is in some version or in none. -/
theorem spliced_or_forged (hversions : ∀ version ∈ versions, ∃ plain, Accepts C config passphrase version plain)
    {pageNo : NonZeroU32} {plain : Bytes}
    (h : PageDecryptor.openPage C ⟨config, .derive C config passphrase salt⟩ pageNo (pageOf config.pageSize content pageNo) =
      .ok plain) :
    Spliced config versions salt content pageNo ∨ Forged C config passphrase versions salt content pageNo := by
  by_cases hin : ∃ version, Keyed versions salt version ∧ ∃ other : NonZeroU32, other.get * config.pageSize ≤ version.length ∧
      PageDecryptor.macInputOf ⟨config, .derive C config passphrase salt⟩ other (pageOf config.pageSize version other) =
        PageDecryptor.macInputOf ⟨config, .derive C config passphrase salt⟩ pageNo (pageOf config.pageSize content pageNo)
  · left
    obtain ⟨version, hkeyed, other, hle, hmac⟩ := hin
    obtain ⟨plain', hplain'⟩ := hversions version hkeyed.1
    -- the page number is part of the message
    obtain ⟨rfl, hsame⟩ := sameSealed_of_macInput (authentic_of_openPage h)
      (authentic_of_openPage (hplain'.openPage hkeyed.2 hle)) hmac.symm
    exact ⟨version, hkeyed, hle, hsame⟩
  · right
    refine ⟨⟨plain, h⟩, fun version hkeyed other hle hmac => hin ⟨version, hkeyed, other, hle, hmac⟩⟩

/-- A file is accepted exactly when it is whole pages, each spliced from the versions under its salt or forged; and where
it is spliced, its plaintext is the version's. -/
theorem accepts_iff_spliced_or_forged
    (hversions : ∀ version ∈ versions, ∃ plain, Accepts C config passphrase version plain) :
    ((∃ plain, Accepts C config passphrase content plain) ↔ passphrase ≠ [] ∧ ∃ (salt : Block) (count : Nat),
      salt.toList = content.take 16 ∧ content.length = count * config.pageSize ∧ 0 < count ∧ count < 2 ^ 32 ∧
        ∀ pageNo : NonZeroU32, pageNo.get ≤ count →
          Spliced config versions salt content pageNo ∨ Forged C config passphrase versions salt content pageNo) ∧
      ∀ plain, Accepts C config passphrase content plain → ∀ pageNo : NonZeroU32,
        pageNo.get * config.pageSize ≤ content.length → ∀ (salt : Block), salt.toList = content.take 16 →
          (∃ version plain', Keyed versions salt version ∧ Accepts C config passphrase version plain' ∧
            pageOf config.pageSize plain pageNo = pageOf config.pageSize plain' pageNo) ∨
          Forged C config passphrase versions salt content pageNo := by
  constructor
  · constructor
    · rintro ⟨plain, hplain⟩
      obtain ⟨salt, count, hsalt, hlen, hpos, hlt⟩ := hplain.whole
      obtain ⟨hne, -, hopens⟩ := (accepts_iff_pages hsalt hlen hpos hlt).1 hplain
      exact ⟨hne, salt, count, hsalt, hlen, hpos, hlt, fun pageNo hle => spliced_or_forged hversions (hopens pageNo hle)⟩
    · rintro ⟨hne, salt, count, hsalt, hlen, hpos, hlt, hpages⟩
      -- what each page opens to, to be put together
      have hopens : ∀ pageNo : NonZeroU32, ∃ page, pageNo.get ≤ count →
          PageDecryptor.openPage C ⟨config, .derive C config passphrase salt⟩ pageNo
            (pageOf config.pageSize content pageNo) = .ok page := by
        intro pageNo
        by_cases hle : pageNo.get ≤ count
        · have hin : pageNo.get * config.pageSize ≤ content.length := hlen ▸ Nat.mul_le_mul_right _ hle
          obtain ⟨page, hpage⟩ := (hpages pageNo hle).elim (·.opens hversions hin) (·.1)
          exact ⟨page, fun _ => hpage⟩
        · exact ⟨[], fun h => absurd h hle⟩
      choose page hpage using hopens
      exact ⟨_, accepts_of_pages hne hsalt hlen hpos hlt hpage⟩
  · intro plain hplain pageNo hle salt hsalt
    refine (spliced_or_forged hversions (hplain.openPage hsalt.symm hle)).imp_left ?_
    rintro ⟨version, hkeyed, hv, hsame⟩
    obtain ⟨plain', hplain'⟩ := hversions version hkeyed.1
    exact ⟨version, plain', hkeyed, hplain', hsame.plain_eq (hsalt.symm.trans hkeyed.2.symm) hplain hplain' hle hv⟩

end Accepted

/-! ## A splice of two versions -/

theorem openPage_secondPage :
    sampleDecryptor.openPage versioned ⟨2, by decide, by decide⟩ secondPage = .ok (secondPlain sampleIv) := by decide +kernel

theorem openPage_updatedSecondPage :
    sampleDecryptor.openPage versioned ⟨2, by decide, by decide⟩ updatedSecondPage = .ok (secondPlain updatedIv) := by
  decide +kernel

section TwoPages

variable {first second : Bytes}

/-- The pages of a file of two pages. -/
theorem pageOf_append (hfirst : first.length = sampleConfig.pageSize) (hsecond : second.length = sampleConfig.pageSize) :
    pageOf sampleConfig.pageSize (first ++ second) .min = first ∧
      pageOf sampleConfig.pageSize (first ++ second) ⟨2, by decide, by decide⟩ = second := by
  constructor
  · rw [pageOf_min, ← hfirst, List.take_left]
  · show ((first ++ second).drop (1 * sampleConfig.pageSize)).take sampleConfig.pageSize = second
    rw [Nat.one_mul, ← hfirst, List.drop_left, hfirst, ← hsecond, List.take_length]

theorem le_two_cases {pageNo : NonZeroU32} (h : pageNo.get ≤ 2) : pageNo = .min ∨ pageNo = ⟨2, by decide, by decide⟩ := by
  rcases Nat.lt_or_ge 1 pageNo.get with hlt | hle
  · exact .inr (NonZeroU32.ext (Nat.le_antisymm h hlt))
  · exact .inl (NonZeroU32.ext (Nat.le_antisymm hle pageNo.pos))

/-- A file of two pages that open is accepted. -/
theorem accepts_append {plain plain' : Bytes} (hsalt : sampleSalt.toList = first.take 16)
    (hfirst : sampleDecryptor.openPage versioned .min first = .ok plain)
    (hsecond : sampleDecryptor.openPage versioned ⟨2, by decide, by decide⟩ second = .ok plain') :
    ∃ image, Accepts versioned sampleConfig samplePassphrase (first ++ second) image := by
  have hlen := (authentic_of_openPage hfirst).1
  have hlen' := (authentic_of_openPage hsecond).1
  have hkeys : KeyMaterial.derive versioned sampleConfig samplePassphrase sampleSalt = sampleKeys := derive_sample
  have hsalt' : sampleSalt.toList = (first ++ second).take 16 := by
    have hle : 16 ≤ first.length := by rw [hlen]; decide
    rw [hsalt, List.take_append_of_le_length hle]
  have hwhole : (first ++ second).length = 2 * sampleConfig.pageSize := by
    rw [List.length_append, hlen, hlen']
    exact (Nat.two_mul _).symm
  have hopen : ∀ pageNo : NonZeroU32, pageNo.get ≤ 2 →
      PageDecryptor.openPage versioned ⟨sampleConfig, .derive versioned sampleConfig samplePassphrase sampleSalt⟩ pageNo
        (pageOf sampleConfig.pageSize (first ++ second) pageNo) = .ok (if pageNo.get = 1 then plain else plain') := by
    intro pageNo hle
    rw [hkeys]
    rcases le_two_cases hle with rfl | rfl
    · rw [(pageOf_append hlen hlen').1]
      exact hfirst
    · rw [(pageOf_append hlen hlen').2]
      exact hsecond
  exact ⟨_, accepts_of_pages (by decide) hsalt' hwhole (by decide) (by decide) hopen⟩

end TwoPages

/-- The first page of one version and the second of the other make a file that is neither, and is accepted. -/
theorem accepts_iff_spliced_or_forged_sample :
    samplePage ++ updatedSecondPage ∉ ({samplePage ++ secondPage, updatedPage ++ updatedSecondPage} : Set Bytes) ∧
      ∃ plain, Accepts versioned sampleConfig samplePassphrase (samplePage ++ updatedSecondPage) plain := by
  have hsalt : sampleSalt.toList = samplePage.take 16 := by decide +kernel
  have hsalt' : sampleSalt.toList = updatedPage.take 16 := by decide +kernel
  have hold := accepts_append hsalt openPage_versioned openPage_secondPage
  have hnew := accepts_append hsalt' openPage_updatedPage openPage_updatedSecondPage
  have hversions : ∀ version ∈ ({samplePage ++ secondPage, updatedPage ++ updatedSecondPage} : Set Bytes), ∃ plain,
      Accepts versioned sampleConfig samplePassphrase version plain := by
    rintro _ (rfl | rfl)
    · exact hold
    · exact hnew
  have hfirst : samplePage.length = sampleConfig.pageSize := length_samplePage
  have hfirst' : updatedPage.length = sampleConfig.pageSize := length_updatedPage
  have hsecond := (authentic_of_openPage openPage_secondPage).1
  have hsecond' := (authentic_of_openPage openPage_updatedSecondPage).1
  refine ⟨by decide +kernel, (accepts_iff_spliced_or_forged hversions).1.2 ⟨by decide, sampleSalt, 2, by decide +kernel, ?_,
    by decide, by decide, fun pageNo hle => .inl ?_⟩⟩
  · rw [List.length_append, hfirst, hsecond']
    exact (Nat.two_mul _).symm
  rcases le_two_cases hle with rfl | rfl
  · refine ⟨samplePage ++ secondPage, ⟨.inl rfl, by decide +kernel⟩, by decide +kernel, ?_⟩
    rw [(pageOf_append hfirst hsecond').1, (pageOf_append hfirst hsecond).1]
    exact ⟨rfl, rfl, rfl⟩
  · refine ⟨updatedPage ++ updatedSecondPage, ⟨.inr rfl, by decide +kernel⟩, by decide +kernel, ?_⟩
    rw [(pageOf_append hfirst hsecond').2, (pageOf_append hfirst' hsecond').2]
    exact ⟨rfl, rfl, rfl⟩

end Veilite.Core

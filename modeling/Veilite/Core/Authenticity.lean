/-
What a page's tag binds: the page number, the ciphertext and the IV. The message it authenticates is
their unframed concatenation, and although the ciphertext of page 1 is shorter and starts later than
that of other pages, the concatenation determines all three. So a page that authenticates in two
places, or two pages with one tag, exhibit two messages with one HMAC.
-/
import Veilite.Core.PageFormat

namespace Veilite.Core

open Buffer

namespace PageDecryptor

variable (C : Primitives) (d : PageDecryptor)

/-- The message the tag of a page authenticates. -/
def macInputOf (pageNo : NonZeroU32) (page : Bytes) : Bytes :=
  macInput (d.config.ciphertextOf pageNo page) (d.config.ivOf page) pageNo.get

/-- The HMAC check passes for a page-sized buffer at a page number. -/
def Authentic (pageNo : NonZeroU32) (page : Bytes) : Prop :=
  page.length = d.config.pageSize ∧
    d.verifyPageHmac C (d.config.ciphertextOf pageNo page) (d.config.ivOf page) pageNo.get (d.config.tagOf page) = .ok ()

/-- Two different messages with one HMAC under the decryptor's key. -/
def Collision (x y : Bytes) : Prop :=
  x ≠ y ∧ C.hmac d.config.hmacAlgorithm d.keys.hmacKey x = C.hmac d.config.hmacAlgorithm d.keys.hmacKey y

variable {C d}

theorem Authentic.tag {pageNo : NonZeroU32} {page : Bytes} (h : d.Authentic C pageNo page) :
    (C.hmac d.config.hmacAlgorithm d.keys.hmacKey (d.macInputOf pageNo page)).toList = d.config.tagOf page :=
  (d.verifyPageHmac_eq_ok_iff C).1 h.2

theorem authentic_of_openPage {pageNo : NonZeroU32} {page plain : Bytes} (h : d.openPage C pageNo page = .ok plain) :
    d.Authentic C pageNo page := by
  unfold openPage at h
  split at h
  · rename_i hlen
    exact ⟨hlen, ((d.openParts_eq_ok_iff C).1 h).1⟩
  · cases h

/-- A page with a wrong tag gets no further. -/
theorem openPage_of_not_authentic {pageNo : NonZeroU32} {page : Bytes} (hlen : page.length = d.config.pageSize)
    (h : ¬ d.Authentic C pageNo page) : d.openPage C pageNo page = .error (.authenticationFailed pageNo.get) := by
  have hmac : d.verifyPageHmac C (d.config.ciphertextOf pageNo page) (d.config.ivOf page) pageNo.get (d.config.tagOf page) =
      .error (.authenticationFailed pageNo.get) := by
    unfold verifyPageHmac
    refine if_neg fun htag => h ⟨hlen, ?_⟩
    exact (d.verifyPageHmac_eq_ok_iff C).2 htag
  unfold openPage openParts
  rw [dif_pos hlen]
  dsimp only [PageParts.ofBytes]
  rw [hmac]

/-- Off page 1 the tag is all that is checked. -/
theorem openPage_ok_iff_authentic {pageNo : NonZeroU32} (hne : pageNo.get ≠ 1) {page : Bytes} :
    (∃ plain, d.openPage C pageNo page = .ok plain) ↔ d.Authentic C pageNo page := by
  constructor
  · rintro ⟨plain, h⟩
    exact authentic_of_openPage h
  · rintro ⟨hlen, hmac⟩
    exact ⟨_, (dif_pos hlen).trans ((d.openParts_eq_ok_iff C).2 ⟨hmac, fun h1 => absurd h1 hne, rfl⟩)⟩

/-- The message determines the page number, and with it the ciphertext and the IV. -/
theorem macInputOf_inj {m n : NonZeroU32} {a b : Bytes} (ha : a.length = d.config.pageSize)
    (hb : b.length = d.config.pageSize) (h : d.macInputOf m a = d.macInputOf n b) :
    m = n ∧ d.config.ciphertextOf m a = d.config.ciphertextOf n b ∧ d.config.ivOf a = d.config.ivOf b := by
  unfold macInputOf macInput at h
  -- the last four bytes are the page number on every page
  obtain ⟨hbody, hno⟩ := List.append_inj' h rfl
  have hmn : m = n := NonZeroU32.ext (le32_inj m.lt n.lt hno)
  subst hmn
  obtain ⟨hct, hiv⟩ := List.append_inj hbody (by
    simp only [CipherConfig.ciphertextOf, List.length_take, List.length_drop, ha, hb])
  exact ⟨rfl, hct, hiv⟩

/-- The authenticated bytes and the tag determine the outcome. -/
theorem openPage_congr {pageNo : NonZeroU32} {a b : Bytes} (ha : a.length = d.config.pageSize)
    (hb : b.length = d.config.pageSize) (hct : d.config.ciphertextOf pageNo a = d.config.ciphertextOf pageNo b)
    (hiv : d.config.ivOf a = d.config.ivOf b) (htag : d.config.tagOf a = d.config.tagOf b) :
    d.openPage C pageNo a = d.openPage C pageNo b := by
  unfold openPage
  rw [dif_pos ha, dif_pos hb]
  simp only [PageParts.ofBytes, hct, hiv, htag]

/-- Two pages with one tag that authenticate at `m` and `n` are one page as far as anything authenticated
goes, at one number and with one outcome, or two messages with one HMAC; and a page that authenticates at
a second number is such a collision. -/
theorem relocation_is_collision {m n : NonZeroU32} {a b : Bytes} (ha : d.Authentic C m a) (hb : d.Authentic C n b)
    (htag : d.config.tagOf a = d.config.tagOf b) :
    (m = n ∧ d.config.ciphertextOf m a = d.config.ciphertextOf n b ∧ d.config.ivOf a = d.config.ivOf b ∧
        d.decryptPageInPlace C m a = d.decryptPageInPlace C n b ∨
      d.Collision C (d.macInputOf m a) (d.macInputOf n b)) ∧
    ∀ m', m' ≠ m → d.Authentic C m' a → d.Collision C (d.macInputOf m a) (d.macInputOf m' a) := by
  have hcollide : ∀ {k l : NonZeroU32} {x y : Bytes}, d.Authentic C k x → d.Authentic C l y →
      d.config.tagOf x = d.config.tagOf y → d.macInputOf k x ≠ d.macInputOf l y →
      d.Collision C (d.macInputOf k x) (d.macInputOf l y) := by
    intro k l x y hx hy ht hne
    exact ⟨hne, Arr.ext (by rw [hx.tag, hy.tag, ht])⟩
  constructor
  · by_cases heq : d.macInputOf m a = d.macInputOf n b
    · obtain ⟨rfl, hct, hiv⟩ := macInputOf_inj ha.1 hb.1 heq
      refine .inl ⟨rfl, hct, hiv, ?_⟩
      rw [d.decryptPageInPlace_eq C, d.decryptPageInPlace_eq C, openPage_congr ha.1 hb.1 hct hiv htag, ha.1, hb.1]
    · exact .inr (hcollide ha hb htag heq)
  · intro m' hne ha'
    exact hcollide ha ha' rfl fun heq => hne (macInputOf_inj ha.1 ha'.1 heq).1.symm

/-- The sample page with other salt bytes, which no tag covers. -/
def resaltedPage : Bytes := List.replicate 16 0x43 ++ samplePage.drop 16

set_option maxRecDepth 8000 in
theorem openPage_resaltedPage : sampleDecryptor.openPage sample .min resaltedPage = .ok samplePlain := by decide +kernel

/-- Two buffers that differ in the salt alone decrypt alike, and either would authenticate at another page only by a
collision. -/
theorem relocation_is_collision_sample :
    samplePage ≠ resaltedPage ∧ sampleDecryptor.decryptPageInPlace sample .min samplePage =
        sampleDecryptor.decryptPageInPlace sample .min resaltedPage ∧
      ∀ m', m' ≠ NonZeroU32.min → sampleDecryptor.Authentic sample m' samplePage →
        sampleDecryptor.Collision sample (sampleDecryptor.macInputOf .min samplePage)
          (sampleDecryptor.macInputOf m' samplePage) := by
  have hmessage : sampleDecryptor.macInputOf .min samplePage = sampleDecryptor.macInputOf .min resaltedPage := by
    decide +kernel
  obtain ⟨hpages, hother⟩ := relocation_is_collision (authentic_of_openPage openPage_samplePage)
    (authentic_of_openPage openPage_resaltedPage) (by decide +kernel)
  obtain ⟨-, -, -, hdecrypt⟩ := hpages.resolve_right fun hcollision => hcollision.1 hmessage
  exact ⟨by decide +kernel, hdecrypt, hother⟩

end PageDecryptor

end Veilite.Core

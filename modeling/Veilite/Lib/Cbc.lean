/-
Cipher block chaining over an arbitrary block type: a permutation of the blocks and an operation
that mixes a block with the previous ciphertext block and undoes itself. Encryption and decryption
are inverse to each other, block list by block list and, through the split of a byte string into
blocks, byte string by byte string.
-/
import Veilite.Lib.Buffer
import Mathlib.Logic.Equiv.Basic

namespace Cbc

open Buffer

/-! ## Byte strings as lists of blocks -/

section Blocks

variable {α : Type} {n : Nat}

/-- The bytes of a list of blocks. -/
def join (bs : List (Arr α n)) : List α := (bs.map Arr.toList).flatten

/-- The `k` blocks of a list of exactly `k` blocks. -/
def split : Nat → List α → Option (List (Arr α n))
  | 0, l => if l = [] then some [] else none
  | k + 1, l => if h : n ≤ l.length then (split k (l.drop n)).map (⟨l.take n, by simpa using h⟩ :: ·) else none

@[simp] theorem join_nil : join ([] : List (Arr α n)) = [] := rfl

@[simp] theorem join_cons (b : Arr α n) (bs : List (Arr α n)) :
    join (b :: bs) = b.toList ++ join bs := rfl

@[simp] theorem length_join (bs : List (Arr α n)) : (join bs).length = bs.length * n := by
  induction bs with
  | nil => simp
  | cons b bs ih => rw [join_cons, List.length_append, ih, b.length_eq, List.length_cons, Nat.succ_mul, Nat.add_comm]

theorem split_eq_some_iff {k : Nat} {l : List α} {bs : List (Arr α n)} :
    split k l = some bs ↔ l = join bs ∧ bs.length = k := by
  induction k generalizing l bs with
  | zero =>
    unfold split
    split
    · rename_i h
      subst h
      constructor
      · rintro ⟨⟩; exact ⟨rfl, rfl⟩
      · rintro ⟨-, hb⟩; rw [List.length_eq_zero_iff.1 hb]
    · rename_i h
      constructor
      · intro h'; cases h'
      · rintro ⟨hl, hb⟩; rw [List.length_eq_zero_iff.1 hb] at hl; exact absurd hl h
  | succ k ih =>
    unfold split
    split
    · rename_i h
      rw [Option.map_eq_some_iff]
      constructor
      · rintro ⟨bs', h', rfl⟩
        obtain ⟨hl, hb⟩ := ih.1 h'
        exact ⟨by rw [join_cons, ← hl]; exact (List.take_append_drop n l).symm, by simp [hb]⟩
      · rintro ⟨rfl, hb⟩
        obtain ⟨b, bs', rfl⟩ := List.exists_cons_of_length_eq_add_one hb
        refine ⟨bs', ih.2 ⟨?_, by simpa using hb⟩, ?_⟩
        · rw [join_cons, List.drop_left' b.length_eq]
        · exact congrArg (· :: bs') (Arr.ext (List.take_left' b.length_eq))
    · rename_i h
      constructor
      · intro h'; cases h'
      · rintro ⟨rfl, hb⟩
        rw [length_join, hb, Nat.succ_mul] at h
        omega

theorem split_join (bs : List (Arr α n)) : split bs.length (join bs) = some bs :=
  split_eq_some_iff.2 ⟨rfl, rfl⟩

/-- A list whose length is a multiple of the block size is a list of blocks. -/
theorem exists_join {k : Nat} {l : List α} (h : l.length = k * n) :
    ∃ bs : List (Arr α n), l = join bs ∧ bs.length = k := by
  induction k generalizing l with
  | zero => exact ⟨[], by simpa using h, rfl⟩
  | succ k ih =>
    rw [Nat.succ_mul] at h
    obtain ⟨bs, hbs, hk⟩ := ih (l := l.drop n) (by rw [List.length_drop]; omega)
    exact ⟨⟨l.take n, by rw [List.length_take]; omega⟩ :: bs,
      by rw [join_cons, ← hbs]; exact (List.take_append_drop n l).symm, by simp [hk]⟩

end Blocks

/-! ## Chaining -/

section Chain

variable {β : Type} (mix : β → β → β) (perm : Equiv.Perm β)

/-- Encrypts each block mixed with the ciphertext block before it. -/
def encrypt : β → List β → List β
  | _, [] => []
  | prev, p :: ps => perm (mix p prev) :: encrypt (perm (mix p prev)) ps

/-- Decrypts each block and mixes it with the ciphertext block before it. -/
def decrypt : β → List β → List β
  | _, [] => []
  | prev, c :: cs => mix (perm.symm c) prev :: decrypt c cs

@[simp] theorem length_encrypt : ∀ (iv : β) (ps : List β), (encrypt mix perm iv ps).length = ps.length
  | _, [] => rfl
  | _, _ :: ps => by simp [encrypt, length_encrypt _ ps]

@[simp] theorem length_decrypt : ∀ (iv : β) (cs : List β), (decrypt mix perm iv cs).length = cs.length
  | _, [] => rfl
  | _, _ :: cs => by simp [decrypt, length_decrypt _ cs]

variable {mix}

/-- Decryption undoes encryption, block by block: the chaining value is the same on both sides. -/
theorem decrypt_encrypt (hmix : ∀ a b, mix (mix a b) b = a) :
    ∀ (iv : β) (ps : List β), decrypt mix perm iv (encrypt mix perm iv ps) = ps
  | _, [] => rfl
  | iv, p :: ps => by
    simp only [encrypt, decrypt, Equiv.symm_apply_apply, hmix]
    rw [decrypt_encrypt hmix]

theorem encrypt_decrypt (hmix : ∀ a b, mix (mix a b) b = a) :
    ∀ (iv : β) (cs : List β), encrypt mix perm iv (decrypt mix perm iv cs) = cs
  | _, [] => rfl
  | iv, c :: cs => by
    simp only [encrypt, decrypt, hmix, Equiv.apply_symm_apply]
    rw [encrypt_decrypt hmix]

end Chain

/-! ## Chaining on byte strings, without padding -/

section Bytes

variable {α : Type} {n : Nat} (mix : Arr α n → Arr α n → Arr α n)
  (perm : Equiv.Perm (Arr α n))

/-- Encrypts whole blocks; none when the data is not block-aligned. -/
def encryptBytes (iv : Arr α n) (data : List α) : Option (List α) :=
  (split (data.length / n) data).map fun bs => join (encrypt mix perm iv bs)

/-- Decrypts whole blocks; none when the data is not block-aligned. -/
def decryptBytes (iv : Arr α n) (data : List α) : Option (List α) :=
  (split (data.length / n) data).map fun bs => join (decrypt mix perm iv bs)

variable {mix}

theorem encryptBytes_join (hn : 0 < n) (iv : Arr α n) (bs : List (Arr α n)) :
    encryptBytes mix perm iv (join bs) = some (join (encrypt mix perm iv bs)) := by
  unfold encryptBytes
  rw [length_join, Nat.mul_div_cancel _ hn, split_join, Option.map_some]

theorem decryptBytes_join (hn : 0 < n) (iv : Arr α n) (bs : List (Arr α n)) :
    decryptBytes mix perm iv (join bs) = some (join (decrypt mix perm iv bs)) := by
  unfold decryptBytes
  rw [length_join, Nat.mul_div_cancel _ hn, split_join, Option.map_some]

variable (mix) in
/-- Block-aligned data decrypts to as many bytes. -/
theorem exists_decryptBytes (hn : 0 < n) (iv : Arr α n) {data : List α} (h : n ∣ data.length) :
    ∃ plain, decryptBytes mix perm iv data = some plain ∧ plain.length = data.length := by
  obtain ⟨k, hk⟩ := h
  obtain ⟨bs, rfl, hb⟩ := exists_join (n := n) (k := k) (l := data) (by rw [hk, Nat.mul_comm])
  exact ⟨_, decryptBytes_join perm hn iv bs, by simp⟩

variable (mix) in
/-- And so it encrypts. -/
theorem exists_encryptBytes (hn : 0 < n) (iv : Arr α n) {data : List α} (h : n ∣ data.length) :
    ∃ cipher, encryptBytes mix perm iv data = some cipher ∧ cipher.length = data.length := by
  obtain ⟨k, hk⟩ := h
  obtain ⟨bs, rfl, hb⟩ := exists_join (n := n) (k := k) (l := data) (by rw [hk, Nat.mul_comm])
  exact ⟨_, encryptBytes_join perm hn iv bs, by simp⟩

/-- On byte strings too, encryption and decryption are inverse to each other. -/
theorem encryptBytes_eq_some_iff (hn : 0 < n) (hmix : ∀ a b, mix (mix a b) b = a) (iv : Arr α n)
    {plain data : List α} :
    encryptBytes mix perm iv plain = some data ↔ decryptBytes mix perm iv data = some plain := by
  constructor
  · intro h
    obtain ⟨bs, hs, rfl⟩ := Option.map_eq_some_iff.1 h
    obtain ⟨rfl, -⟩ := split_eq_some_iff.1 hs
    rw [decryptBytes_join perm hn, decrypt_encrypt perm hmix]
  · intro h
    obtain ⟨bs, hs, rfl⟩ := Option.map_eq_some_iff.1 h
    obtain ⟨rfl, -⟩ := split_eq_some_iff.1 hs
    rw [encryptBytes_join perm hn, encrypt_decrypt perm hmix]

theorem length_decryptBytes {iv : Arr α n} {data plain : List α}
    (h : decryptBytes mix perm iv data = some plain) : plain.length = data.length := by
  obtain ⟨bs, hs, rfl⟩ := Option.map_eq_some_iff.1 h
  obtain ⟨rfl, -⟩ := split_eq_some_iff.1 hs
  simp

end Bytes

end Cbc

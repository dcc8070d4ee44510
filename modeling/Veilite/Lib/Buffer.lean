/-
Buffers and machine integers with the checks a systems language makes: a slice or a copy out of
range has no value (the program panics), a subtraction below zero or a division by zero neither,
and `checked_*` and `try_from` return `none` outside their width.
-/
import Mathlib.Data.List.Basic
import Mathlib.Tactic

namespace Buffer

variable {α : Type}

/-! ## Slices -/

/-- `&l[lo..hi]`. -/
def slice (l : List α) (lo hi : Nat) : Option (List α) :=
  if lo ≤ hi ∧ hi ≤ l.length then some ((l.drop lo).take (hi - lo)) else none

/-- `l[lo..hi].copy_from_slice(src)`. -/
def copyFrom (l : List α) (lo hi : Nat) (src : List α) : Option (List α) :=
  if lo ≤ hi ∧ hi ≤ l.length ∧ src.length = hi - lo then some (l.take lo ++ src ++ l.drop hi) else none

/-- `l[i] = x`. -/
def assign (l : List α) (i : Nat) (x : α) : Option (List α) := if i < l.length then some (l.set i x) else none

/-- The slice that starts after `a` and is as long as `b`. -/
theorem slice_append {a b c : List α} {lo hi : Nat} (hlo : a.length = lo) (hhi : lo + b.length = hi) :
    slice (a ++ (b ++ c)) lo hi = some b := by
  subst hlo hhi
  unfold slice
  rw [if_pos ⟨by omega, by simp⟩, List.drop_left, Nat.add_sub_cancel_left, List.take_left]

theorem copyFrom_append {a b c b' : List α} {lo hi : Nat} (hlo : a.length = lo) (hhi : lo + b.length = hi)
    (hb : b'.length = b.length) : copyFrom (a ++ (b ++ c)) lo hi b' = some (a ++ (b' ++ c)) := by
  subst hlo hhi
  unfold copyFrom
  rw [if_pos ⟨by omega, by simp, by omega⟩, List.take_left, ← List.append_assoc a b c,
    ← List.length_append, List.drop_left, List.append_assoc]

theorem slice_eq_some {l : List α} {lo hi : Nat} (h : lo ≤ hi) (h' : hi ≤ l.length) :
    slice l lo hi = some ((l.drop lo).take (hi - lo)) :=
  if_pos ⟨h, h'⟩

theorem copyFrom_eq_some {l src : List α} {lo hi : Nat} (h : lo ≤ hi) (h' : hi ≤ l.length)
    (hs : src.length = hi - lo) : copyFrom l lo hi src = some (l.take lo ++ src ++ l.drop hi) :=
  if_pos ⟨h, h', hs⟩

theorem assign_eq_some {l : List α} {i : Nat} (h : i < l.length) (x : α) : assign l i x = some (l.set i x) := if_pos h

theorem length_of_slice {l r : List α} {lo hi : Nat} (h : slice l lo hi = some r) : r.length = hi - lo := by
  unfold slice at h
  split at h
  · rename_i hb
    cases h
    simp; omega
  · cases h

/-- The `n` elements from `i` on, then the rest. -/
theorem take_drop_append (l : List α) (i n : Nat) : (l.drop i).take n ++ l.drop (i + n) = l.drop i := by
  rw [← List.drop_drop, List.take_append_drop]

/-- Lists of one length with the same elements at the positions of `p`. -/
structure AgreeOn (p : Nat → Prop) (a b : List α) : Prop where
  length : a.length = b.length
  get : ∀ i, p i → a[i]? = b[i]?

/-- A window of such positions is the same. -/
theorem AgreeOn.window {p : Nat → Prop} {a b : List α} (h : AgreeOn p a b) {start n : Nat}
    (hp : ∀ i, i < n → p (start + i)) : (a.drop start).take n = (b.drop start).take n := by
  apply List.ext_getElem?
  intro i
  rw [List.getElem?_take, List.getElem?_take]
  split
  · rename_i hi
    rw [List.getElem?_drop, List.getElem?_drop]
    exact h.get _ (hp i hi)
  · rfl

/-- So a window agrees on its positions of `p`. -/
theorem AgreeOn.window_agree {p : Nat → Prop} {a b : List α} (h : AgreeOn p a b) (start n : Nat) :
    AgreeOn (fun i => i < n → p (start + i)) ((a.drop start).take n) ((b.drop start).take n) where
  length := by rw [List.length_take, List.length_take, List.length_drop, List.length_drop, h.length]
  get i hp := by
    rw [List.getElem?_take, List.getElem?_take]
    split
    · rename_i hi
      rw [List.getElem?_drop, List.getElem?_drop]
      exact h.get _ (hp hi)
    · rfl

/-- What a call on a `&mut [T]` leaves: its `Result` and the buffer. -/
structure Filled (ε α : Type) where
  result : Except ε Unit
  buffer : List α

/-- The buffer overwritten with `x`. -/
def fill (x : α) (l : List α) : List α := List.replicate l.length x

@[simp] theorem length_fill (x : α) (l : List α) : (fill x l).length = l.length := List.length_replicate

@[simp] theorem fill_replicate (x y : α) (n : Nat) : fill x (List.replicate n y) = List.replicate n x := by
  simp [fill]

/-- The outcome that fails closed: the value, or `n` copies of `x` with the error. -/
def Filled.closed {ε : Type} (n : Nat) (x : α) : Except ε (List α) → Filled ε α
  | .ok value => ⟨.ok (), value⟩
  | .error e => ⟨.error e, List.replicate n x⟩

@[simp] theorem Filled.closed_ok {ε : Type} (n : Nat) (x : α) (value : List α) :
    Filled.closed n x (.ok value : Except ε (List α)) = ⟨.ok (), value⟩ := rfl

@[simp] theorem Filled.closed_error {ε : Type} (n : Nat) (x : α) (e : ε) :
    Filled.closed n x (.error e : Except ε (List α)) = ⟨.error e, List.replicate n x⟩ := rfl

theorem Filled.closed_eq_ok_iff {ε : Type} {n : Nat} {x : α} {r : Except ε (List α)} {value : List α} :
    Filled.closed n x r = ⟨.ok (), value⟩ ↔ r = .ok value := by
  cases r <;> simp

/-- The call returns a buffer of `n` elements, all of them `x` when it failed. -/
def FailsClosed {ε : Type} (x : α) (n : Nat) (call : Option (Filled ε α)) : Prop :=
  ∃ filled, call = some filled ∧ filled.buffer.length = n ∧
    ∀ e, filled.result = .error e → filled.buffer = List.replicate n x

theorem failsClosed_closed {ε : Type} {x : α} {n : Nat} {r : Except ε (List α)}
    (h : ∀ value, r = .ok value → value.length = n) : FailsClosed x n (some (.closed n x r)) := by
  refine ⟨_, rfl, ?_, ?_⟩
  · cases r with
    | ok value => exact h value rfl
    | error e => exact List.length_replicate
  · cases r with
    | ok value => rintro e ⟨⟩
    | error e => exact fun _ _ => rfl

/-! ## Fixed-size arrays -/

/-- `[T; n]`: a list of exactly `n` elements. -/
@[ext] structure Arr (α : Type) (n : Nat) where
  toList : List α
  length_eq : toList.length = n
deriving DecidableEq

attribute [simp] Arr.length_eq

/-- `slice.try_into()`. -/
def Arr.ofList (n : Nat) (l : List α) : Option (Arr α n) :=
  if h : l.length = n then some ⟨l, h⟩ else none

theorem Arr.ofList_eq_some {n : Nat} {l : List α} (h : l.length = n) : Arr.ofList n l = some ⟨l, h⟩ := dif_pos h

@[simp] theorem Arr.ofList_toList {n : Nat} (a : Arr α n) : Arr.ofList n a.toList = some a :=
  Arr.ofList_eq_some a.length_eq

/-- `[x; n]`. -/
def Arr.replicate (n : Nat) (x : α) : Arr α n := ⟨List.replicate n x, List.length_replicate⟩

/-- The element-wise combination of two arrays. -/
def Arr.zipWith {n : Nat} (f : α → α → α) (a b : Arr α n) : Arr α n :=
  ⟨List.zipWith f a.toList b.toList, by simp⟩

theorem zipWith_cancel {f : α → α → α} (hf : ∀ x y, f (f x y) y = x) :
    ∀ {a b : List α}, a.length = b.length → List.zipWith f (List.zipWith f a b) b = a
  | [], [], _ => rfl
  | x :: a, y :: b, h => by
    simp only [List.zipWith_cons_cons, hf]
    rw [zipWith_cancel hf (by simpa using h)]

/-- An operation that undoes itself does so element by element. -/
theorem Arr.zipWith_cancel {n : Nat} {f : α → α → α} (hf : ∀ x y, f (f x y) y = x) (a b : Arr α n) :
    (a.zipWith f b).zipWith f b = a :=
  Arr.ext (Buffer.zipWith_cancel hf (by simp))

/-! ## Machine integers -/

/-- `a - b`, which panics below zero. -/
def sub (a b : Nat) : Option Nat := if b ≤ a then some (a - b) else none

/-- `a / b` and `a % b`, which panic when `b` is zero. -/
def divRem (a b : Nat) : Option (Nat × Nat) := if b = 0 then none else some (a / b, a % b)

/-- `checked_add` on `w` bits. -/
def checkedAdd (w a b : Nat) : Option Nat := if a + b < 2 ^ w then some (a + b) else none

/-- `checked_mul` on `w` bits. -/
def checkedMul (w a b : Nat) : Option Nat := if a * b < 2 ^ w then some (a * b) else none

/-- `try_from` into `w` bits. -/
def tryFrom (w a : Nat) : Option Nat := if a < 2 ^ w then some a else none

/-- `saturating_add` on `w` bits. -/
def saturatingAdd (w a b : Nat) : Nat := min (a + b) (2 ^ w - 1)

theorem checkedAdd_eq_some_iff {w a b c : Nat} : checkedAdd w a b = some c ↔ a + b < 2 ^ w ∧ a + b = c := by
  unfold checkedAdd
  split <;> simp_all

theorem tryFrom_eq_some_iff {w a b : Nat} : tryFrom w a = some b ↔ a < 2 ^ w ∧ a = b := by
  unfold tryFrom
  split <;> simp_all

theorem sub_eq_some {a b : Nat} (h : b ≤ a) : sub a b = some (a - b) := if_pos h

theorem divRem_eq_some {a b : Nat} (h : 0 < b) : divRem a b = some (a / b, a % b) := if_neg (by omega)

theorem checkedAdd_eq_some {w a b : Nat} (h : a + b < 2 ^ w) : checkedAdd w a b = some (a + b) := if_pos h

theorem checkedMul_eq_some {w a b : Nat} (h : a * b < 2 ^ w) : checkedMul w a b = some (a * b) := if_pos h

theorem tryFrom_eq_some {w a : Nat} (h : a < 2 ^ w) : tryFrom w a = some a := if_pos h

/-! ## Fixed-width encodings -/

/-- The four little-endian bytes of `n`. -/
def le32 (n : Nat) : List UInt8 :=
  [UInt8.ofNat n, UInt8.ofNat (n / 2 ^ 8), UInt8.ofNat (n / 2 ^ 16), UInt8.ofNat (n / 2 ^ 24)]

@[simp] theorem length_le32 (n : Nat) : (le32 n).length = 4 := rfl

theorem ofNat_inj_mod {a b : Nat} (h : UInt8.ofNat a = UInt8.ofNat b) : a % 2 ^ 8 = b % 2 ^ 8 := by
  simpa using congrArg UInt8.toNat h

theorem le32_inj {m n : Nat} (hm : m < 2 ^ 32) (hn : n < 2 ^ 32) (h : le32 m = le32 n) : m = n := by
  simp only [le32, List.cons.injEq, and_true] at h
  obtain ⟨h0, h1, h2, h3⟩ := h
  have h0 := ofNat_inj_mod h0
  have h1 := ofNat_inj_mod h1
  have h2 := ofNat_inj_mod h2
  have h3 := ofNat_inj_mod h3
  omega

/-- The number two big-endian bytes encode. -/
def be16 (hi lo : UInt8) : Nat := hi.toNat * 2 ^ 8 + lo.toNat

end Buffer

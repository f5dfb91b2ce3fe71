import OpenALRenderer.Foundation.Significand
import Mathlib.Algebra.Group.Int.Defs
import Mathlib.Algebra.Group.Nat.Defs
import Mathlib.Data.Nat.Basic
import Mathlib.Data.List.Basic

/-! # Machine integers and result codes -/

namespace OpenALRenderer

/-- The two builds of the project. -/
inductive Platform where
  | win32
  | x64
  deriving DecidableEq, Repr

namespace Platform

/-- The width of `size_t`. -/
def sizeBits : Platform → ℕ
  | win32 => 32
  | x64 => 64

/-- Unsigned arithmetic in `size_t` wraps around. -/
def toSizeT (p : Platform) (n : ℕ) : ℕ := n % 2 ^ p.sizeBits

/-- An `int` product, taken modulo `2 ^ 32`, converted to `size_t` with sign extension. -/
def intToSizeT (p : Platform) (n : ℕ) : ℕ :=
  if n % 2 ^ 32 < 2 ^ 31 then n % 2 ^ 32 else n % 2 ^ 32 + (2 ^ p.sizeBits - 2 ^ 32)

/-- The largest length of a `std::vector<int8_t>`; `resize` throws above it. -/
def maxVectorSize (p : Platform) : ℕ := 2 ^ (p.sizeBits - 1) - 1

theorem toSizeT_of_lt {p : Platform} {n : ℕ} (h : n < 2 ^ p.sizeBits) : p.toSizeT n = n :=
  Nat.mod_eq_of_lt h

theorem intToSizeT_of_lt {p : Platform} {n : ℕ} (h : n < 2 ^ 31) : p.intToSizeT n = n := by
  have hm : n % 2 ^ 32 = n := Nat.mod_eq_of_lt (by omega)
  unfold intToSizeT
  rw [hm, if_pos h]

theorem intToSizeT_win32 {n : ℕ} (h : n < 2 ^ 32) : win32.intToSizeT n = n := by
  have hm : n % 2 ^ 32 = n := Nat.mod_eq_of_lt h
  unfold intToSizeT
  rw [hm]
  split <;> simp [sizeBits]

/-- On 64 bits a product that overflowed `int` turns into a very large `size_t`. -/
theorem le_intToSizeT_x64 {n : ℕ} (hlo : 2 ^ 31 ≤ n) (hhi : n < 2 ^ 32) :
    2 ^ 60 ≤ x64.intToSizeT n := by
  have hm : n % 2 ^ 32 = n := Nat.mod_eq_of_lt hhi
  have hn : ¬ n < 2 ^ 31 := by omega
  unfold intToSizeT
  rw [hm, if_neg hn]
  exact Nat.le_add_left_of_le (by decide)

end Platform

/-- A whole number converted to `float`, whose significand has 24 bits. -/
def toFloat (n : ℕ) : ℕ := Foundation.roundTo 24 n

/-- A whole number that a `float` holds. -/
structure WholeFloat where
  toNat : ℕ
  exact : toFloat toNat = toNat

/-- To compare with a number as a `float` is to compare with the number, unless it is rounded
down. -/
theorem WholeFloat.lt_toFloat_iff (o : WholeFloat) {n : ℕ} (h : n ≤ toFloat n) :
    o.toNat < toFloat n ↔ o.toNat < n :=
  Foundation.lt_roundTo_iff (by decide) o.exact h

/-- What a number is rounded to when it is converted. -/
def WholeFloat.ofNat (n : ℕ) : WholeFloat := ⟨toFloat n, Foundation.roundTo_roundTo (by decide) n⟩

@[simp] theorem WholeFloat.toNat_ofNat (n : ℕ) : (WholeFloat.ofNat n).toNat = toFloat n := rfl

/-- Only zero becomes zero. -/
theorem toFloat_pos {n : ℕ} (h : 0 < n) : 0 < toFloat n := by
  have hone : toFloat 1 = 1 := Foundation.roundTo_of_lt (by decide)
  have hmono : toFloat 1 ≤ toFloat n := Foundation.roundTo_mono (by decide) h
  omega

/-- The result codes the modelled functions return or pass on. -/
inductive HRESULT where
  | S_OK
  | S_FALSE
  | E_FAIL
  | E_POINTER
  | E_INVALIDARG
  | E_OUTOFMEMORY
  | VFW_E_WRONG_STATE
  | VFW_E_RUNTIME_ERROR
  | VFW_E_INVALIDMEDIATYPE
  | VFW_E_TYPE_NOT_ACCEPTED
  | VFW_E_ALREADY_CONNECTED
  | VFW_E_NOT_STOPPED
  | external (failed : Bool) (code : ℕ)
  deriving DecidableEq, Repr

/-- `FAILED(hr)`; `external` stands for a code produced outside the filter. -/
def HRESULT.failed : HRESULT → Bool
  | S_OK => false
  | S_FALSE => false
  | external f _ => f
  | _ => true

@[simp] theorem HRESULT.failed_S_OK : S_OK.failed = false := rfl

@[simp] theorem HRESULT.failed_S_FALSE : S_FALSE.failed = false := rfl

@[simp] theorem HRESULT.failed_E_OUTOFMEMORY : E_OUTOFMEMORY.failed = true := rfl

@[simp] theorem HRESULT.failed_VFW_E_RUNTIME_ERROR : VFW_E_RUNTIME_ERROR.failed = true := rfl

@[simp] theorem HRESULT.failed_VFW_E_INVALIDMEDIATYPE :
    VFW_E_INVALIDMEDIATYPE.failed = true := rfl

end OpenALRenderer

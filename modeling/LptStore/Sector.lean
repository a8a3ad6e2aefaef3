import Mathlib.Data.List.Basic
import Mathlib.Tactic.Common

/-!
# Sectors and byte buffers

A sector is a list of exactly 512 bytes, the unit every layer of the system transfers: the
USB medium, the static buffers of the firmware (`lptprotocol.c:8-9`) and the caller's
blocks on the DOS side. The C functions fill a buffer through `out[r++] = v` starting at
`r = 0`, so what such a function stores is a list of bytes, and `storeBytes` is the buffer after
it.
-/

namespace LptStore

/-- The buffer `old` after the stores `out[0] = w₀, out[1] = w₁, ...`; those past its end
do not reach it. -/
def storeBytes (old w : List UInt8) : List UInt8 := (w ++ old.drop w.length).take old.length

@[simp] theorem length_storeBytes (old w : List UInt8) :
    (storeBytes old w).length = old.length := by
  simp [storeBytes]
  omega

/-- The first bytes of the buffer are the ones just stored. -/
theorem take_storeBytes {old w : List UInt8} (h : w.length ≤ old.length) :
    (storeBytes old w).take w.length = w := by
  simp [storeBytes, List.take_take, Nat.min_eq_left h]

/-- 512 bytes. -/
structure Sector where
  bytes : List UInt8
  length_bytes : bytes.length = 512
  deriving DecidableEq

attribute [simp] Sector.length_bytes

namespace Sector

@[ext] theorem ext {s t : Sector} (h : s.bytes = t.bytes) : s = t := by
  cases s; cases t; simpa using h

/-- `buff[i]`; the code only indexes below 512. -/
def get (s : Sector) (i : Nat) : UInt8 := s.bytes.getD i 0

/-- `buff[i] | (buff[i+1]<<8)` -/
def le16 (s : Sector) (i : Nat) : UInt16 := (s.get i).toUInt16 ||| (s.get (i + 1)).toUInt16 <<< 8

/-- `buff[i] | (buff[i+1]<<8) | (buff[i+2]<<16) | (buff[i+3]<<24)` -/
def le32 (s : Sector) (i : Nat) : UInt32 :=
  (s.get i).toUInt32 ||| (s.get (i + 1)).toUInt32 <<< 8 ||| (s.get (i + 2)).toUInt32 <<< 16 |||
    (s.get (i + 3)).toUInt32 <<< 24

/-- The `n` bytes from `&buff[i]` on. -/
def slice (s : Sector) (i n : Nat) : List UInt8 := (s.bytes.drop i).take n

/-- `buff[i] = b`; an index past the end stores outside this buffer. -/
def set (s : Sector) (i : Nat) (b : UInt8) : Sector := ⟨s.bytes.set i b, by simp⟩

/-- The sector whose byte `i` is `f i`. -/
def ofFn (f : Nat → UInt8) : Sector := ⟨(List.range 512).map f, by simp⟩

/-- A sector of zero bytes. -/
def zero : Sector := ⟨List.replicate 512 0, List.length_replicate⟩

/-- `storeBytes` into a sector buffer. -/
def overwrite (s : Sector) (w : List UInt8) : Sector :=
  ⟨storeBytes s.bytes w, by simp⟩

@[simp] theorem get_ofFn (f : Nat → UInt8) {i : Nat} (h : i < 512) : (ofFn f).get i = f i := by
  simp [get, ofFn, h]

theorem ofFn_congr {f g : Nat → UInt8} (h : ∀ i, i < 512 → f i = g i) : ofFn f = ofFn g := by
  have hmap : (List.range 512).map f = (List.range 512).map g :=
    List.map_congr_left fun i hi => h i (List.mem_range.mp hi)
  unfold ofFn
  rw [Sector.mk.injEq, hmap]

/-- The stores `buff[i] = b₀, buff[i+1] = b₁, ...`. -/
def setFrom (s : Sector) : Nat → List UInt8 → Sector
  | _, [] => s
  | i, b :: bs => (s.set i b).setFrom (i + 1) bs

theorem bytes_setFrom (s : Sector) (i : Nat) (bs : List UInt8) (h : i + bs.length ≤ 512) :
    (s.setFrom i bs).bytes = s.bytes.take i ++ bs ++ s.bytes.drop (i + bs.length) := by
  induction bs generalizing s i with
  | nil => simp [setFrom]
  | cons b bs ih =>
    simp only [List.length_cons] at h
    have hlen : i < s.bytes.length := by
      rw [s.length_bytes]
      omega
    have hset : (s.set i b).bytes = s.bytes.take i ++ b :: s.bytes.drop (i + 1) :=
      (List.set_eq_take_append_cons_drop).trans (if_pos hlen)
    have htake : (s.bytes.take i).length = i := List.length_take_of_le (Nat.le_of_lt hlen)
    rw [setFrom, ih _ _ (by omega), hset]
    have hdrop : (s.bytes.take i).drop (i + 1 + bs.length) = [] :=
      List.drop_eq_nil_of_le (by omega)
    rw [List.take_append, List.drop_append, htake, List.take_of_length_le (by omega), hdrop]
    rw [show i + 1 - i = 1 by omega, show i + 1 + bs.length - i = bs.length + 1 by omega]
    simp [Nat.add_comm, Nat.add_left_comm]

/-- A buffer that is overwritten in full keeps nothing. -/
theorem bytes_overwrite (s : Sector) {w : List UInt8} (h : w.length = 512) :
    (s.overwrite w).bytes = w := by
  simp [overwrite, storeBytes, h]

theorem overwrite_full (s : Sector) (d : Sector) : s.overwrite d.bytes = d := by
  ext1
  simp [overwrite, storeBytes]

end Sector

/-- A medium: the content of every logical block. -/
abbrev Medium := UInt32 → Sector

end LptStore

import Mathlib.Logic.Function.Basic
import Mathlib.Tactic.Common

/-!
# Memory behind a far pointer

A far pointer is a segment and an offset in it. What is added to the pointer moves the offset only, modulo
2^16: it reaches the 64 KiB of its segment, and behind the last byte of these comes the first.
-/

namespace LptStore.Lib

open Function

/-- What a machine in real mode keeps of each byte, by linear address. -/
abbrev Cells (β : Type) := Nat → β

/-- Its memory. -/
abbrev Mem := Cells UInt8

/-- A far pointer. -/
structure FarPtr where
  seg : UInt16
  off : UInt16
  deriving DecidableEq, Repr

namespace FarPtr

/-- The linear address of the segment. -/
def base (p : FarPtr) : Nat := 16 * p.seg.toNat

/-- The linear address of `p[i]`. -/
def addr (p : FarPtr) (i : Nat) : Nat := p.base + (p.off.toNat + i) % 65536

/-- `p + n` -/
def add (p : FarPtr) (n : Nat) : FarPtr := { p with off := p.off + UInt16.ofNat n }

/-- The number of a byte of the segment, counted from `p` on. -/
def index (p : FarPtr) (a : Nat) : Nat := (a - p.base + 65536 - p.off.toNat) % 65536

/-- The address is that of one of the `n` bytes from `p` on. -/
def Covers (p : FarPtr) (n a : Nat) : Prop := (p.base ≤ a ∧ a < p.base + 65536) ∧ p.index a < n

instance (p : FarPtr) (n a : Nat) : Decidable (p.Covers n a) :=
  inferInstanceAs (Decidable ((p.base ≤ a ∧ a < p.base + 65536) ∧ p.index a < n))

/-- The `n` bytes from `p` on end within the segment. -/
def Spans (p : FarPtr) (n : Nat) : Prop := p.off.toNat + n ≤ 65536

instance (p : FarPtr) (n : Nat) : Decidable (p.Spans n) :=
  inferInstanceAs (Decidable (p.off.toNat + n ≤ 65536))

section

variable {p : FarPtr} {a i j m n : Nat}

@[simp] theorem add_base (p : FarPtr) (n : Nat) : (p.add n).base = p.base := rfl

theorem add_off (p : FarPtr) (n : Nat) : (p.add n).off.toNat = (p.off.toNat + n) % 65536 := by
  show (p.off + UInt16.ofNat n).toNat = _
  rw [UInt16.toNat_add, UInt16.toNat_ofNat']
  omega

@[simp] theorem add_zero (p : FarPtr) : p.add 0 = p := by
  show { p with off := p.off + 0 } = p
  rw [UInt16.add_zero]

@[simp] theorem addr_add (p : FarPtr) (m i : Nat) : (p.add m).addr i = p.addr (m + i) := by
  unfold addr
  rw [add_base, add_off]
  omega

@[simp] theorem add_add (p : FarPtr) (m n : Nat) : (p.add m).add n = p.add (m + n) := by
  show { p with off := p.off + UInt16.ofNat m + UInt16.ofNat n } = _
  rw [UInt16.add_assoc, ← UInt16.ofNat_add]
  rfl

theorem index_addr (p : FarPtr) (i : Nat) : p.index (p.addr i) = i % 65536 := by
  have hoff := p.off.toNat_lt
  unfold index addr
  omega

theorem covers_addr : p.Covers n (p.addr i) ↔ i % 65536 < n := by
  have hin : p.base ≤ p.addr i ∧ p.addr i < p.base + 65536 := by
    unfold addr
    omega
  unfold Covers
  rw [index_addr, and_iff_right hin]

theorem addr_index (h : p.base ≤ a ∧ a < p.base + 65536) : p.addr (p.index a) = a := by
  have hoff := p.off.toNat_lt
  unfold index addr
  omega

theorem covers_iff : p.Covers n a ↔ ∃ i < n, p.addr i = a := by
  constructor
  · rintro ⟨hin, hlt⟩
    exact ⟨p.index a, hlt, addr_index hin⟩
  · rintro ⟨i, hi, rfl⟩
    exact covers_addr.mpr (Nat.lt_of_le_of_lt (Nat.mod_le i 65536) hi)

theorem Covers.mono (h : p.Covers m a) (hle : m ≤ n) : p.Covers n a :=
  ⟨h.1, Nat.lt_of_lt_of_le h.2 hle⟩

theorem not_covers_zero (p : FarPtr) (a : Nat) : ¬ p.Covers 0 a :=
  fun h => Nat.not_lt_zero _ h.2

/-- Some bytes, and those behind them. -/
theorem covers_add : p.Covers (m + n) a ↔ p.Covers m a ∨ (p.add m).Covers n a := by
  simp only [covers_iff, addr_add]
  constructor
  · rintro ⟨i, hi, rfl⟩
    by_cases hlt : i < m
    · exact .inl ⟨i, hlt, rfl⟩
    · exact .inr ⟨i - m, by omega, by rw [Nat.add_sub_cancel' (Nat.le_of_not_lt hlt)]⟩
  · rintro (⟨i, hi, rfl⟩ | ⟨i, hi, rfl⟩)
    · exact ⟨i, by omega, rfl⟩
    · exact ⟨m + i, by omega, rfl⟩

/-- In all not more than 64 KiB, they lie apart. -/
theorem not_covers_add (hle : m + n ≤ 65536) (h : p.Covers m a) : ¬ (p.add m).Covers n a := by
  intro htail
  obtain ⟨i, hi, rfl⟩ := covers_iff.mp htail
  rw [addr_add, covers_addr] at h
  omega

/-- Within the segment the addresses go up by one. -/
theorem Spans.addr (h : p.Spans n) (hi : i < n) : p.addr i = p.addr 0 + i := by
  unfold Spans at h
  unfold FarPtr.addr
  omega

theorem Spans.covers_iff (h : p.Spans n) : p.Covers n a ↔ p.addr 0 ≤ a ∧ a < p.addr 0 + n := by
  rw [FarPtr.covers_iff]
  constructor
  · rintro ⟨i, hi, rfl⟩
    rw [h.addr hi]
    omega
  · rintro ⟨hle, hlt⟩
    exact ⟨a - p.addr 0, by omega, by rw [h.addr (by omega)]; omega⟩

theorem Spans.mono (h : p.Spans n) (hle : m ≤ n) : p.Spans m := by
  unfold Spans at h ⊢
  omega

theorem Spans.le (h : p.Spans n) : n ≤ 65536 := by
  unfold Spans at h
  omega

end

end FarPtr

namespace Cells

variable {β : Type}

/-- The store of one cell. -/
def put (m : Cells β) (a : Nat) (b : β) : Cells β := update m a b

/-- The stores `p[0] = w₀, p[1] = w₁, ...`, not more than 65536 of them. -/
def write (m : Cells β) (p : FarPtr) (w : List β) : Cells β :=
  fun a => if p.Covers w.length a then w.getD (p.index a) (m a) else m a

section

variable {m : Cells β} {p : FarPtr} {w : List β} {a i : Nat}

theorem write_of_not_covers (h : ¬ p.Covers w.length a) : m.write p w a = m a := if_neg h

theorem write_addr (hlen : w.length ≤ 65536) (hi : i < w.length) : m.write p w (p.addr i) = w[i] := by
  have hmod : i % 65536 = i := Nat.mod_eq_of_lt (Nat.lt_of_lt_of_le hi hlen)
  unfold write
  rw [if_pos (FarPtr.covers_addr.mpr (hmod.symm ▸ hi)), FarPtr.index_addr, hmod,
    List.getD_eq_getElem?_getD, List.getElem?_eq_getElem hi, Option.getD_some]

theorem write_nil (m : Cells β) (p : FarPtr) : m.write p [] = m :=
  funext fun a => write_of_not_covers (p.not_covers_zero a)

/-- The stores are made one after the other. -/
theorem write_cons (m : Cells β) (p : FarPtr) (b : β) (hlen : w.length < 65536) :
    m.write p (b :: w) = (m.put (p.addr 0) b).write (p.add 1) w := by
  funext a
  have hall : (b :: w).length ≤ 65536 := hlen
  have hsplit : p.Covers (w.length + 1) a ↔ p.Covers 1 a ∨ (p.add 1).Covers w.length a := by
    rw [Nat.add_comm, FarPtr.covers_add]
  by_cases hfirst : p.Covers 1 a
  · have hle : 1 + w.length ≤ 65536 := by omega
    have hrest := FarPtr.not_covers_add hle hfirst
    obtain ⟨i, hi, rfl⟩ := FarPtr.covers_iff.mp hfirst
    obtain rfl : i = 0 := by omega
    rw [write_of_not_covers hrest, write_addr hall (Nat.succ_pos _)]
    exact (update_self (p.addr 0) b m).symm
  · have hne : a ≠ p.addr 0 := by
      rintro rfl
      exact hfirst (FarPtr.covers_iff.mpr ⟨0, Nat.one_pos, rfl⟩)
    by_cases hrest : (p.add 1).Covers w.length a
    · obtain ⟨i, hi, rfl⟩ := FarPtr.covers_iff.mp hrest
      have hnext : p.addr (1 + i) = p.addr (i + 1) := by rw [Nat.add_comm]
      rw [write_addr (Nat.le_of_lt hlen) hi, FarPtr.addr_add, hnext,
        write_addr hall (Nat.succ_lt_succ hi), List.getElem_cons_succ]
    · rw [write_of_not_covers fun h => (hsplit.mp h).elim hfirst hrest, write_of_not_covers hrest]
      exact (update_of_ne hne b m).symm

end

end Cells

end LptStore.Lib

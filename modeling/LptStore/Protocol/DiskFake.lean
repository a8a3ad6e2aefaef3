import Mathlib.Logic.Function.Basic
import LptStore.Lib.Table
import LptStore.Protocol.Direct

/-!
# The fake disk of the firmware

`diskfake.c` stands in for the USB stick: 16 drives, of 65536 blocks each by what it says, that hold a FAT16
image until they are written. It keeps the first 200 different blocks that are written to it, in memory,
with a block number of 16 bits.
-/

namespace LptStore.Protocol

open LptStore.Lib

/-- The bytes of `block0.h` before its zeros: a boot sector. -/
def xaaBytes : List UInt8 :=
  [0xeb, 0x3c, 0x90, 0x6d, 0x6b, 0x66, 0x73, 0x2e, 0x66, 0x61, 0x74, 0x00, 0x02, 0x04, 0x04, 0x00,
   0x02, 0x00, 0x02, 0x00, 0x00, 0xf8, 0x40, 0x00, 0x20, 0x00, 0x40, 0x00, 0x00, 0x00, 0x00, 0x00,
   0x00, 0x00, 0x01, 0x00, 0x80, 0x00, 0x29, 0xfd, 0xb8, 0x37, 0x46, 0x4e, 0x4f, 0x20, 0x4e, 0x41,
   0x4d, 0x45, 0x20, 0x20, 0x20, 0x20, 0x46, 0x41, 0x54, 0x31, 0x36, 0x20, 0x20, 0x20, 0x0e, 0x1f,
   0xbe, 0x5b, 0x7c, 0xac, 0x22, 0xc0, 0x74, 0x0b, 0x56, 0xb4, 0x0e, 0xbb, 0x07, 0x00, 0xcd, 0x10,
   0x5e, 0xeb, 0xf0, 0x32, 0xe4, 0xcd, 0x16, 0xcd, 0x19, 0xeb, 0xfe, 0x54, 0x68, 0x69, 0x73, 0x20,
   0x69, 0x73, 0x20, 0x6e, 0x6f, 0x74, 0x20, 0x61, 0x20, 0x62, 0x6f, 0x6f, 0x74, 0x61, 0x62, 0x6c,
   0x65, 0x20, 0x64, 0x69, 0x73, 0x6b, 0x2e, 0x20, 0x20, 0x50, 0x6c, 0x65, 0x61, 0x73, 0x65, 0x20,
   0x69, 0x6e, 0x73, 0x65, 0x72, 0x74, 0x20, 0x61, 0x20, 0x62, 0x6f, 0x6f, 0x74, 0x61, 0x62, 0x6c,
   0x65, 0x20, 0x66, 0x6c, 0x6f, 0x70, 0x70, 0x79, 0x20, 0x61, 0x6e, 0x64, 0x0d, 0x0a, 0x70, 0x72,
   0x65, 0x73, 0x73, 0x20, 0x61, 0x6e, 0x79, 0x20, 0x6b, 0x65, 0x79, 0x20, 0x74, 0x6f, 0x20, 0x74,
   0x72, 0x79, 0x20, 0x61, 0x67, 0x61, 0x69, 0x6e, 0x20, 0x2e, 0x2e, 0x2e, 0x20, 0x0d, 0x0a]

/-- `xaa` (`block0.h`). -/
def xaa : Sector := ⟨xaaBytes ++ List.replicate 319 0 ++ [0x55, 0xaa], by decide +kernel⟩

/-- `xae` (`block4.h`), the first sector of a FAT. -/
def xae : Sector := ⟨[0xf8, 0xff, 0xff, 0xff] ++ List.replicate 508 0, by decide +kernel⟩

/-- What `disk_read_sector` answers for a block that is not kept (`diskfake.c:40-43`). -/
def fakeImage (lbn : UInt32) : Sector :=
  if lbn = 0 then xaa else if lbn = 4 then xae else if lbn = 68 then xae else .zero

/-- `blockUnit` and `blockNr` beside `blocks`, up to `nrBlocks`. -/
abbrev FakeBlocks := List ((UInt8 × UInt16) × Sector)

/-- `MAX_BLOCKS`. -/
def MAX_BLOCKS : Nat := 200

/-- The test of the two loops. -/
def isBlock (disk : UInt8) (lbn : UInt32) (key : UInt8 × UInt16) : Bool :=
  key.1 == disk && key.2.toUInt32 == lbn

/-- `diskfake.c`. -/
def diskfake : BlindDisk FakeBlocks where
  getDrives _ := 0xffff
  getBlocks _ _ := 32 * 1024 * 2
  readSector w disk lbn _ := ((0, (Table.find (isBlock disk lbn) w).getD (fakeImage lbn)), w)
  writeSector w disk lbn buff := (0, Table.store MAX_BLOCKS (isBlock disk lbn) (disk, lbn.toUInt16) buff w)
  blind _ _ _ _ _ := rfl

section History

/-- A memory of all that was written, which answers with the last that was written to a block if the block
is among the first `cap` different ones written to. -/
def remembering (cap : Nat) : Disk FakeBlocks where
  getDrives _ := 0xffff
  getBlocks _ _ := 32 * 1024 * 2
  readSector es disk lbn _ :=
    ((0, (Table.lastValue cap (disk, lbn.toUInt16) es).getD (fakeImage lbn)), es)
  writeSector es disk lbn buff := (0, es ++ [((disk, lbn.toUInt16), buff)])

/-- For a block number of 16 bits the test of the loops is equality of keys. -/
theorem isBlock_eq (disk : UInt8) (l : UInt16) :
    isBlock disk l.toUInt32 = Table.isKey (disk, l) := by
  funext key
  obtain ⟨u, n⟩ := key
  have hnumber : n.toUInt32 = l.toUInt32 ↔ n = l :=
    ⟨fun h => by simpa using congrArg UInt32.toUInt16 h, congrArg UInt16.toUInt32⟩
  rw [Bool.eq_iff_iff, Table.isKey_eq_true, Prod.mk.injEq, ← hnumber]
  simp only [isBlock, Bool.and_eq_true, beq_iff_eq]

/-- The table of the fake disk is that of its history. -/
theorem diskfake_follows : diskfake.Follows (remembering MAX_BLOCKS) (Table.stored MAX_BLOCKS)
    fun _ => True := by
  constructor
  · intro es d l _
    refine ⟨trivial, ?_⟩
    unfold Disk.fetch
    simp only [diskfake, remembering, isBlock_eq, Table.find_stored, UInt16.toUInt16_toUInt32]
  · intro es d l data _
    refine ⟨trivial, ?_⟩
    simp only [diskfake, remembering, isBlock_eq, Table.stored_snoc, UInt16.toUInt16_toUInt32]

end History

end LptStore.Protocol

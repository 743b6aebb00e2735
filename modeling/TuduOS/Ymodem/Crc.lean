import TuduOS.Lib.Crc
import TuduOS.Ymodem.Receive

/-!
# The checksum from a table (`ymodem.c`)

`CRC16` as it is with `YMODEM_USING_CRC_TABLE`, and that it is the `CRC16` without it.

* `ccittTable_eq`: an entry of the table is eight shifts of its index, put into the high byte.
* `crcTable_eq`: so a byte from the table is a byte shifted in bit by bit.
-/

namespace Tudu.Ymodem

def ccittTable : List UInt16 :=
  [0x0000, 0x1021, 0x2042, 0x3063, 0x4084, 0x50A5, 0x60C6, 0x70E7,
    0x8108, 0x9129, 0xA14A, 0xB16B, 0xC18C, 0xD1AD, 0xE1CE, 0xF1EF,
    0x1231, 0x0210, 0x3273, 0x2252, 0x52B5, 0x4294, 0x72F7, 0x62D6,
    0x9339, 0x8318, 0xB37B, 0xA35A, 0xD3BD, 0xC39C, 0xF3FF, 0xE3DE,
    0x2462, 0x3443, 0x0420, 0x1401, 0x64E6, 0x74C7, 0x44A4, 0x5485,
    0xA56A, 0xB54B, 0x8528, 0x9509, 0xE5EE, 0xF5CF, 0xC5AC, 0xD58D,
    0x3653, 0x2672, 0x1611, 0x0630, 0x76D7, 0x66F6, 0x5695, 0x46B4,
    0xB75B, 0xA77A, 0x9719, 0x8738, 0xF7DF, 0xE7FE, 0xD79D, 0xC7BC,
    0x48C4, 0x58E5, 0x6886, 0x78A7, 0x0840, 0x1861, 0x2802, 0x3823,
    0xC9CC, 0xD9ED, 0xE98E, 0xF9AF, 0x8948, 0x9969, 0xA90A, 0xB92B,
    0x5AF5, 0x4AD4, 0x7AB7, 0x6A96, 0x1A71, 0x0A50, 0x3A33, 0x2A12,
    0xDBFD, 0xCBDC, 0xFBBF, 0xEB9E, 0x9B79, 0x8B58, 0xBB3B, 0xAB1A,
    0x6CA6, 0x7C87, 0x4CE4, 0x5CC5, 0x2C22, 0x3C03, 0x0C60, 0x1C41,
    0xEDAE, 0xFD8F, 0xCDEC, 0xDDCD, 0xAD2A, 0xBD0B, 0x8D68, 0x9D49,
    0x7E97, 0x6EB6, 0x5ED5, 0x4EF4, 0x3E13, 0x2E32, 0x1E51, 0x0E70,
    0xFF9F, 0xEFBE, 0xDFDD, 0xCFFC, 0xBF1B, 0xAF3A, 0x9F59, 0x8F78,
    0x9188, 0x81A9, 0xB1CA, 0xA1EB, 0xD10C, 0xC12D, 0xF14E, 0xE16F,
    0x1080, 0x00A1, 0x30C2, 0x20E3, 0x5004, 0x4025, 0x7046, 0x6067,
    0x83B9, 0x9398, 0xA3FB, 0xB3DA, 0xC33D, 0xD31C, 0xE37F, 0xF35E,
    0x02B1, 0x1290, 0x22F3, 0x32D2, 0x4235, 0x5214, 0x6277, 0x7256,
    0xB5EA, 0xA5CB, 0x95A8, 0x8589, 0xF56E, 0xE54F, 0xD52C, 0xC50D,
    0x34E2, 0x24C3, 0x14A0, 0x0481, 0x7466, 0x6447, 0x5424, 0x4405,
    0xA7DB, 0xB7FA, 0x8799, 0x97B8, 0xE75F, 0xF77E, 0xC71D, 0xD73C,
    0x26D3, 0x36F2, 0x0691, 0x16B0, 0x6657, 0x7676, 0x4615, 0x5634,
    0xD94C, 0xC96D, 0xF90E, 0xE92F, 0x99C8, 0x89E9, 0xB98A, 0xA9AB,
    0x5844, 0x4865, 0x7806, 0x6827, 0x18C0, 0x08E1, 0x3882, 0x28A3,
    0xCB7D, 0xDB5C, 0xEB3F, 0xFB1E, 0x8BF9, 0x9BD8, 0xABBB, 0xBB9A,
    0x4A75, 0x5A54, 0x6A37, 0x7A16, 0x0AF1, 0x1AD0, 0x2AB3, 0x3A92,
    0xFD2E, 0xED0F, 0xDD6C, 0xCD4D, 0xBDAA, 0xAD8B, 0x9DE8, 0x8DC9,
    0x7C26, 0x6C07, 0x5C64, 0x4C45, 0x3CA2, 0x2C83, 0x1CE0, 0x0CC1,
    0xEF1F, 0xFF3E, 0xCF5D, 0xDF7C, 0xAF9B, 0xBFBA, 0x8FD9, 0x9FF8,
    0x6E17, 0x7E36, 0x4E55, 0x5E74, 0x2E93, 0x3EB2, 0x0ED1, 0x1EF0]

/-- A turn of the loop over the bytes, with the table. -/
def crcTable (crc : UInt16) (q : Byte) : UInt16 :=
  crc <<< 8 ^^^ ccittTable.getD ((crc >>> 8 ^^^ q.toUInt16) &&& 0xff).toNat 0

def crc16Table (q : List Byte) : UInt16 := q.foldl crcTable 0

/-! ## Shifts -/

/-- `0x1021` -/
def ccittPoly : BitVec 16 := 0x1021#16

theorem and_high (x : BitVec 16) : x &&& 0x8000#16 = if x.msb then 0x8000#16 else 0#16 := by
  ext i hi
  have hbit : (0x8000#16)[i] = decide (i = 15) := by
    revert hi i
    decide
  rw [BitVec.getElem_and, hbit]
  by_cases h15 : i = 15
  · subst h15
    cases hm : x.msb <;> simp [BitVec.msb_eq_getLsbD_last] at hm <;> simp [hm]
  · cases x.msb <;> simp [hbit, h15]

theorem and_high_ne (c : UInt16) : c &&& 0x8000 ≠ 0 ↔ c.toBitVec.msb = true := by
  have hand : (c &&& 0x8000).toBitVec = c.toBitVec &&& 0x8000#16 := rfl
  rw [Ne, ← UInt16.toBitVec_inj, hand, and_high]
  cases c.toBitVec.msb <;> simp

theorem crcShift_toBitVec (c : UInt16) :
    (crcShift c).toBitVec = Crc.shift ccittPoly c.toBitVec := by
  unfold crcShift Crc.shift
  by_cases hc : c &&& 0x8000 ≠ 0
  · rw [if_pos hc, if_pos ((and_high_ne c).mp hc)]
    rfl
  · rw [if_neg hc, if_neg fun h => hc ((and_high_ne c).mpr h)]
    rfl

theorem crcByte_toBitVec (crc : UInt16) (q : Byte) : (crcByte crc q).toBitVec =
    Crc.shifts ccittPoly 8 (crc ^^^ q.toUInt16 <<< 8).toBitVec := by
  simp only [crcByte, crcShift_toBitVec]
  rfl

/-! ## The table -/

theorem ccittTable_eq (i : Fin 256) : (ccittTable.getD i.val 0).toBitVec =
    Crc.shifts ccittPoly 8 (BitVec.ofNat 16 i.val <<< 8) := by
  revert i
  decide +kernel

/-- The index of the table is the high byte of the remainder with the byte added. -/
theorem index_eq (crc : UInt16) (q : Byte) : ((crc >>> 8 ^^^ q.toUInt16) &&& 0xff).toBitVec =
    (crc ^^^ q.toUInt16 <<< 8).toBitVec >>> 8 := by
  have hidx : ((crc >>> 8 ^^^ q.toUInt16) &&& 0xff).toBitVec =
      (crc.toBitVec >>> 8 ^^^ q.toBitVec.setWidth 16) &&& 0xff#16 := rfl
  have hx : (crc ^^^ q.toUInt16 <<< 8).toBitVec = crc.toBitVec ^^^ q.toBitVec.setWidth 16 <<< 8 := rfl
  rw [hidx, hx]
  ext i hi
  have hbit : (0xff#16)[i] = decide (i < 8) := by
    revert hi i
    decide
  simp only [BitVec.getElem_and, BitVec.getElem_xor, BitVec.getElem_ushiftRight, hbit]
  by_cases h8 : i < 8
  · simp [h8, show 8 + i < 16 by omega]
  · simp [h8, show ¬8 + i < 16 by omega, BitVec.getLsbD_of_ge crc.toBitVec (8 + i) (by omega)]

theorem crcTable_eq (crc : UInt16) (q : Byte) : crcTable crc q = crcByte crc q := by
  have hlt : ((crc >>> 8 ^^^ q.toUInt16) &&& 0xff).toNat < 256 := by
    rw [UInt16.toNat_and]
    exact Nat.lt_succ_of_le Nat.and_le_right
  have hofNat : BitVec.ofNat 16 ((crc >>> 8 ^^^ q.toUInt16) &&& 0xff).toNat =
      (crc ^^^ q.toUInt16 <<< 8).toBitVec >>> 8 := by
    rw [← index_eq]
    exact BitVec.ofNat_toNat ..
  have hentry := ccittTable_eq ⟨_, hlt⟩
  -- the byte is shifted out of the lower bits
  have hlow : (crc ^^^ q.toUInt16 <<< 8).toBitVec <<< 8 = (crc <<< 8).toBitVec := by
    have hx : (crc ^^^ q.toUInt16 <<< 8).toBitVec =
      crc.toBitVec ^^^ q.toBitVec.setWidth 16 <<< 8 := rfl
    have hq : q.toBitVec.setWidth 16 <<< 8 <<< 8 = 0#16 := by
      rw [← BitVec.shiftLeft_add]
      exact BitVec.shiftLeft_eq_zero (Nat.le_refl 16)
    rw [hx, BitVec.shiftLeft_xor_distrib, hq, BitVec.xor_zero]
    rfl
  rw [← UInt16.toBitVec_inj, crcByte_toBitVec, Crc.shifts_eq (by decide), hlow, crcTable,
    UInt16.toBitVec_xor, hentry, hofNat, BitVec.xor_comm]

/-- The two implementations of `CRC16` agree. -/
theorem crc16Table_eq (q : List Byte) : crc16Table q = crc16 q := by
  have hstep : crcTable = crcByte := by
    funext crc b
    exact crcTable_eq crc b
  rw [crc16Table, crc16, hstep]

example : crc16Table [0x31, 0x32, 0x33] = 0x9752 := by decide

end Tudu.Ymodem

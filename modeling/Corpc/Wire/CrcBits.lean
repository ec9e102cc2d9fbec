/-
# The checksum bit by bit

Source: `corpc_crc.cpp`, `CRC::CheckSum`, `CRC::InitTable`, `CRC::Reverse`, and the class `CRC` of
the Unity clients (`clients/unity/Corpc/CRC.cs`).
-/

import Corpc.Basis.Lfsr
import Corpc.Wire.Crc

namespace Corpc.Wire.CRC

open Corpc.Basis.Lfsr List BitVec

/-- The inner loop of `InitTable`: one shift, and the polynomial if a one dropped out. -/
def crcShift (reversePoly crc : UInt16) : UInt16 :=
  if crc &&& 0x01 ≠ 0 then reversePoly ^^^ crc >>> 1 else crc >>> 1

/-- `CRC::Reverse`: the bits of a word in the other order. -/
def reverse (data : UInt16) : UInt16 :=
  ((List.range' 1 16).foldl (fun (value, data) i =>
    (if data &&& 1 ≠ 0 then value ||| 1 <<< (16 - UInt16.ofNat i) else value, data >>> 1))
    ((0 : UInt16), data)).1

/-- `CRC::InitTable`: a byte is shifted out of each entry. -/
def initTable (polynomial : UInt16) : Array UInt16 :=
  Array.ofFn fun i : Fin 256 => (crcShift (reverse polynomial))^[8] (UInt16.ofNat i)

/-- The checksum bit by bit, without the table. -/
def checkSumBits (data : List UInt8) (crc16 : UInt16) : UInt16 :=
  data.foldl (fun crc b => (crcShift 0xA001)^[8] (crc ^^^ b.toUInt16)) crc16

namespace Unity

/-- `CRC.MbTable` of the Unity clients. -/
def mbTable : Array UInt16 := #[
    0x0000, 0xC0C1, 0xC181, 0x0140, 0xC301, 0x03C0, 0x0280, 0xC241,
    0xC601, 0x06C0, 0x0780, 0xC741, 0x0500, 0xC5C1, 0xC481, 0x0440,
    0xCC01, 0x0CC0, 0x0D80, 0xCD41, 0x0F00, 0xCFC1, 0xCE81, 0x0E40,
    0x0A00, 0xCAC1, 0xCB81, 0x0B40, 0xC901, 0x09C0, 0x0880, 0xC841,
    0xD801, 0x18C0, 0x1980, 0xD941, 0x1B00, 0xDBC1, 0xDA81, 0x1A40,
    0x1E00, 0xDEC1, 0xDF81, 0x1F40, 0xDD01, 0x1DC0, 0x1C80, 0xDC41,
    0x1400, 0xD4C1, 0xD581, 0x1540, 0xD701, 0x17C0, 0x1680, 0xD641,
    0xD201, 0x12C0, 0x1380, 0xD341, 0x1100, 0xD1C1, 0xD081, 0x1040,
    0xF001, 0x30C0, 0x3180, 0xF141, 0x3300, 0xF3C1, 0xF281, 0x3240,
    0x3600, 0xF6C1, 0xF781, 0x3740, 0xF501, 0x35C0, 0x3480, 0xF441,
    0x3C00, 0xFCC1, 0xFD81, 0x3D40, 0xFF01, 0x3FC0, 0x3E80, 0xFE41,
    0xFA01, 0x3AC0, 0x3B80, 0xFB41, 0x3900, 0xF9C1, 0xF881, 0x3840,
    0x2800, 0xE8C1, 0xE981, 0x2940, 0xEB01, 0x2BC0, 0x2A80, 0xEA41,
    0xEE01, 0x2EC0, 0x2F80, 0xEF41, 0x2D00, 0xEDC1, 0xEC81, 0x2C40,
    0xE401, 0x24C0, 0x2580, 0xE541, 0x2700, 0xE7C1, 0xE681, 0x2640,
    0x2200, 0xE2C1, 0xE381, 0x2340, 0xE101, 0x21C0, 0x2080, 0xE041,
    0xA001, 0x60C0, 0x6180, 0xA141, 0x6300, 0xA3C1, 0xA281, 0x6240,
    0x6600, 0xA6C1, 0xA781, 0x6740, 0xA501, 0x65C0, 0x6480, 0xA441,
    0x6C00, 0xACC1, 0xAD81, 0x6D40, 0xAF01, 0x6FC0, 0x6E80, 0xAE41,
    0xAA01, 0x6AC0, 0x6B80, 0xAB41, 0x6900, 0xA9C1, 0xA881, 0x6840,
    0x7800, 0xB8C1, 0xB981, 0x7940, 0xBB01, 0x7BC0, 0x7A80, 0xBA41,
    0xBE01, 0x7EC0, 0x7F80, 0xBF41, 0x7D00, 0xBDC1, 0xBC81, 0x7C40,
    0xB401, 0x74C0, 0x7580, 0xB541, 0x7700, 0xB7C1, 0xB681, 0x7640,
    0x7200, 0xB2C1, 0xB381, 0x7340, 0xB101, 0x71C0, 0x7080, 0xB041,
    0x5000, 0x90C1, 0x9181, 0x5140, 0x9301, 0x53C0, 0x5280, 0x9241,
    0x9601, 0x56C0, 0x5780, 0x9741, 0x5500, 0x95C1, 0x9481, 0x5440,
    0x9C01, 0x5CC0, 0x5D80, 0x9D41, 0x5F00, 0x9FC1, 0x9E81, 0x5E40,
    0x5A00, 0x9AC1, 0x9B81, 0x5B40, 0x9901, 0x59C0, 0x5880, 0x9841,
    0x8801, 0x48C0, 0x4980, 0x8941, 0x4B00, 0x8BC1, 0x8A81, 0x4A40,
    0x4E00, 0x8EC1, 0x8F81, 0x4F40, 0x8D01, 0x4DC0, 0x4C80, 0x8C41,
    0x4400, 0x84C1, 0x8581, 0x4540, 0x8701, 0x47C0, 0x4680, 0x8641,
    0x8201, 0x42C0, 0x4380, 0x8341, 0x4100, 0x81C1, 0x8081, 0x4040
  ]

/-- `CRC.CheckSum(data, offset, crc16, len)` of the Unity clients: `none` if an index is out of
range. -/
def checkSum (data : List UInt8) (offset : ℕ) (crc16 : UInt16) (len : ℕ) : Option UInt16 :=
  (List.range len).foldlM (fun crc16 i => do
    let b ← data[i + offset]?
    let n := (b.toUInt16 ^^^ crc16).toUInt8
    return crc16 >>> 8 ^^^ mbTable.getD n.toNat 0) crc16

end Unity

theorem initTable_eq : initTable 0x8005 = mbTable := by
  rw [← Array.toList_inj]
  decide +kernel

theorem mbTable_getD (b : UInt8) : mbTable.getD b.toNat 0 = (crcShift 0xA001)^[8] b.toUInt16 := by
  have hpoly : reverse 0x8005 = 0xA001 := by decide +kernel
  have hcast : UInt16.ofNat b.toNat = b.toUInt16 := by
    refine UInt16.toNat_inj.1 ?_
    have := b.toNat_lt
    rw [UInt16.toNat_ofNat', UInt8.toNat_toUInt16]
    omega
  rw [← initTable_eq, initTable, Array.getD_eq_getD_getElem?, Array.getElem?_ofFn,
    dif_pos b.toNat_lt, hpoly, ← hcast]
  rfl

theorem toBitVec_crcShift (crc : UInt16) :
    (crcShift 0xA001 crc).toBitVec = shift 0xA001#16 crc.toBitVec := by
  have hbit : crc &&& 0x01 ≠ 0 ↔ crc.toBitVec.getLsbD 0 = true := by
    rw [Ne, ← UInt16.toBitVec_inj, UInt16.toBitVec_and]
    show ¬crc.toBitVec &&& 1#16 = 0#16 ↔ _
    rw [and_one_eq_setWidth_ofBool_getLsbD]
    cases crc.toBitVec.getLsbD 0 <;> decide
  unfold crcShift shift
  by_cases hone : crc.toBitVec.getLsbD 0 = true
  · rw [if_pos (hbit.2 hone), if_pos hone, BitVec.xor_comm]
    rfl
  · rw [if_neg (mt hbit.1 hone), if_neg hone]
    rfl

theorem toBitVec_iterate_crcShift (k : ℕ) (crc : UInt16) :
    ((crcShift 0xA001)^[k] crc).toBitVec = (shift 0xA001#16)^[k] crc.toBitVec := by
  induction k generalizing crc with
  | zero => rfl
  | succ k ih => rw [Function.iterate_succ_apply, Function.iterate_succ_apply, ih,
      toBitVec_crcShift]

theorem iterate_shift_eight (r : BitVec 16) :
    (shift 0xA001#16)^[8] r = r >>> 8 ^^^ (shift 0xA001#16)^[8] ((r.setWidth 8).setWidth 16) := by
  generalize hlow : (r.setWidth 8).setWidth 16 = low
  have hbit : ∀ i, low.getLsbD i = (decide (i < 8) && r.getLsbD i) := by
    intro i
    rw [← hlow, getLsbD_setWidth, getLsbD_setWidth]
    by_cases hi : i < 8
    · simp [hi, (by omega : i < 16)]
    · simp [hi]
  have hclear : ∀ i < 8, (r ^^^ low).getLsbD i = false := by
    intro i hi
    simp [getLsbD_xor, hbit, hi]
  have hhigh : (r ^^^ low) >>> 8 = r >>> 8 := by
    refine eq_of_getLsbD_eq fun i _ => ?_
    rw [getLsbD_ushiftRight, getLsbD_ushiftRight, getLsbD_xor, hbit,
      decide_eq_false (by omega), Bool.false_and, Bool.xor_false]
  have hsplit : r = r ^^^ low ^^^ low := by
    rw [BitVec.xor_assoc, BitVec.xor_self, BitVec.xor_zero]
  rw [← hhigh, ← iterate_shift_of_clear hclear, ← iterate_shift_xor, ← hsplit]

/-- **One look into the table is eight shifts.** -/
theorem checkSumByte_eq (crc16 : UInt16) (b : UInt8) :
    checkSumByte crc16 b = (crcShift 0xA001)^[8] (crc16 ^^^ b.toUInt16) := by
  have hswap : b.toUInt16 ^^^ crc16 = crc16 ^^^ b.toUInt16 := UInt16.xor_comm ..
  have hhigh : (crc16 ^^^ b.toUInt16).toBitVec >>> 8 = crc16.toBitVec >>> 8 := by
    refine eq_of_getLsbD_eq fun i _ => ?_
    simp [getLsbD_ushiftRight, getLsbD_xor]
  rw [checkSumByte, hswap]
  refine UInt16.toBitVec_inj.1 ?_
  rw [toBitVec_iterate_crcShift, iterate_shift_eight, hhigh, mbTable_getD]
  show crc16.toBitVec >>> 8 ^^^ ((crcShift 0xA001)^[8] _).toBitVec = _
  rw [toBitVec_iterate_crcShift]
  rfl

variable (data : List UInt8)

theorem checkSum_eq_checkSumBits (crc16 : UInt16) :
    checkSum data crc16 = checkSumBits data crc16 := by
  have hbyte : checkSumByte = fun crc b => (crcShift 0xA001)^[8] (crc ^^^ b.toUInt16) :=
    funext fun crc16 => funext fun b => checkSumByte_eq crc16 b
  rw [checkSum, hbyte]
  rfl

theorem Unity.checkSum_append (pre data post : List UInt8) (crc16 : UInt16) :
    Unity.checkSum (pre ++ data ++ post) pre.length crc16 data.length =
      some (Wire.checkSum data crc16) := by
  have htable : Unity.mbTable = Wire.mbTable := rfl
  have hloop : ∀ k ≤ data.length, Unity.checkSum (pre ++ data ++ post) pre.length crc16 k =
      some (Wire.checkSum (data.take k) crc16) := by
    intro k hk
    induction k with
    | zero => rfl
    | succ k ih =>
      have hget : (pre ++ data ++ post)[k + pre.length]? = some data[k] := by
        rw [List.append_assoc, List.getElem?_append_right (by omega), Nat.add_sub_cancel,
          List.getElem?_append_left (by omega), List.getElem?_eq_getElem]
      have hprev := ih (by omega)
      unfold Unity.checkSum at hprev ⊢
      have hbyte : Wire.checkSum (data.take k ++ [data[k]]) crc16 =
          checkSumByte (Wire.checkSum (data.take k) crc16) data[k] := foldl_append
      rw [range_succ, foldlM_append, hprev, take_succ_eq_append_getElem (by omega), hbyte]
      simp only [Option.bind_eq_bind, Option.bind_some, foldlM_cons, foldlM_nil, hget, htable]
      rfl
  rw [hloop _ (Nat.le_refl _), take_length]

/-- **`CRC::CheckSum` is CRC-16** with the reflected polynomial 0xA001, on the Unity clients too,
and a checksum goes on where another ended. -/
theorem checkSum_is_crc16 (crc16 : UInt16) :
    checkSum data crc16 = checkSumBits data crc16 ∧
    (∀ pre post, Unity.checkSum (pre ++ data ++ post) pre.length crc16 data.length =
      some (checkSum data crc16)) ∧
    ∀ second, checkSum (data ++ second) crc16 = checkSum second (checkSum data crc16) :=
  ⟨checkSum_eq_checkSumBits data crc16,
    fun pre post => Unity.checkSum_append pre data post crc16, fun _ => foldl_append⟩

/-- The bits of a byte, the low one first. -/
def byteBits (b : UInt8) : List Bool :=
  (List.range 8).map b.toBitVec.getLsbD

/-- The bits of the bytes in the order in which they are divided. -/
def bits (data : List UInt8) : List Bool :=
  data.flatMap byteBits

/-- All bits in which the bytes differ are among `n` consecutive ones. -/
def DifferWithin (n : ℕ) (data data' : List UInt8) : Prop :=
  ∃ p, ∀ i, (bits data)[i]? ≠ (bits data')[i]? → p ≤ i ∧ i < p + n

theorem getD_byteBits (b : UInt8) (i : ℕ) :
    (byteBits b).getD i false = b.toBitVec.getLsbD i := by
  unfold byteBits
  by_cases hi : i < 8
  · simp [getD_eq_getElem?_getD, hi]
  · rw [getD_eq_default _ _ (by simpa using hi), getLsbD_of_ge _ _ (by omega)]

theorem byteBits_inj {b c : UInt8} (h : byteBits b = byteBits c) : b = c := by
  refine UInt8.toBitVec_inj.1 (eq_of_getLsbD_eq fun i _ => ?_)
  rw [← getD_byteBits, h, getD_byteBits]

@[simp]
theorem length_byteBits (b : UInt8) : (byteBits b).length = 8 := rfl

theorem length_bits : (bits data).length = 8 * data.length := by
  simp [bits, Nat.mul_comm]

theorem bits_inj {data data' : List UInt8} (hlen : data.length = data'.length)
    (h : bits data = bits data') : data = data' := by
  induction data generalizing data' with
  | nil => exact (eq_nil_of_length_eq_zero hlen.symm).symm
  | cons b data ih =>
    obtain ⟨c, data', rfl⟩ := exists_cons_of_length_eq_add_one hlen.symm
    obtain ⟨hbyte, hrest⟩ := append_inj h rfl
    rw [byteBits_inj hbyte, ih (Nat.succ.inj hlen) hrest]

theorem checkSum_eq_feedBits (crc16 : UInt16) :
    (checkSum data crc16).toBitVec = feedBits 0xA001#16 crc16.toBitVec (bits data) := by
  induction data generalizing crc16 with
  | nil => rfl
  | cons b data ih =>
    have hbits : ∀ i, b.toUInt16.toBitVec.getLsbD i = (byteBits b).getD i false := by
      intro i
      rw [getD_byteBits]
      by_cases hi : i < 8
      · simp [(by omega : i < 16)]
      · simp [getLsbD_of_ge b.toBitVec i (by omega)]
    show (checkSum data (checkSumByte crc16 b)).toBitVec = feedBits _ _ (byteBits b ++ bits data)
    rw [ih, feed_append, feedBits_eq_iterate hbits, checkSumByte_eq, toBitVec_iterate_crcShift]
    rfl

/-- **The checksum detects a burst.** -/
theorem checkSum_ne_of_burst {data data' : List UInt8} (hlen : data.length = data'.length)
    (hne : data ≠ data') (hburst : DifferWithin 16 data data') (crc16 : UInt16) :
    checkSum data crc16 ≠ checkSum data' crc16 := by
  obtain ⟨p, hp⟩ := hburst
  have hbits : (bits data).length = (bits data').length := by
    rw [length_bits, length_bits, hlen]
  have htop : (0xA001#16).getLsbD (16 - 1) = true := by decide
  refine fun heq => feed_ne_of_burst htop hbits (mt (bits_inj hlen) hne) hp crc16.toBitVec ?_
  rw [← checkSum_eq_feedBits, ← checkSum_eq_feedBits, heq]

end Corpc.Wire.CRC

/-
# The XOR crypter

`SimpleXORCrypter` in `corpc_crypter.cpp`: byte `i` of a buffer is xored
with byte `i % keySize_` of the key, and decryption is encryption again.  The key
is not empty, since the code divides by its size.
-/

import Corpc.Wire.Define

namespace Corpc.Wire

structure XorKey where
  bytes : List UInt8
  ne_nil : bytes ≠ []

namespace XorKey

/-- Byte `i` of the key, repeated. -/
def byte (key : XorKey) (i : ℕ) : UInt8 :=
  key.bytes.get ⟨i % key.bytes.length, Nat.mod_lt _ (List.length_pos_iff.2 key.ne_nil)⟩

/-- The loop of `SimpleXORCrypter::encrypt`. -/
def apply (key : XorKey) (src : List UInt8) : List UInt8 :=
  src.mapIdx fun i b => b ^^^ key.byte i

@[simp]
theorem length_apply (key : XorKey) (src : List UInt8) : (key.apply src).length = src.length := by
  simp [apply]

@[simp]
theorem apply_apply (key : XorKey) (src : List UInt8) : key.apply (key.apply src) = src := by
  refine List.ext_getElem (by simp) fun i h₁ h₂ => ?_
  simp only [apply, List.getElem_mapIdx]
  rw [UInt8.xor_assoc, UInt8.xor_self, UInt8.xor_zero]

end XorKey

def simpleXORCrypter (key : XorKey) : Crypter where
  encrypt := key.apply
  decrypt := key.apply
  length_encrypt := key.length_apply
  length_decrypt := key.length_apply

theorem decrypt_encrypt (key : XorKey) (src : List UInt8) :
    (simpleXORCrypter key).decrypt ((simpleXORCrypter key).encrypt src) = src :=
  key.apply_apply src

end Corpc.Wire

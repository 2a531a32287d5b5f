import Mathlib.Tactic.NormNum

set_option autoImplicit false

/-! # Words in bytes

Words of 32 bits as they lie in memory and on disk, the most significant byte first. Reading an
array of words from bytes and writing it to bytes are inverse to each other. -/

namespace DemandPaging

/-- The bytes of a word. -/
def wordBytes (w : UInt32) (i : Fin 4) : UInt8 := UInt8.ofNat (w.toNat / 256 ^ (3 - i.val))

/-- The word of four bytes. -/
def wordOf (b : Fin 4 → UInt8) : UInt32 :=
  UInt32.ofNat ((b 0).toNat * 2 ^ 24 + (b 1).toNat * 2 ^ 16 + (b 2).toNat * 2 ^ 8 + (b 3).toNat)

@[simp] theorem wordOf_wordBytes (w : UInt32) : wordOf (wordBytes w) = w := by
  have h := w.toNat_lt
  apply UInt32.toNat_inj.1
  simp only [wordOf, wordBytes, UInt8.toNat_ofNat', UInt32.toNat_ofNat', Fin.val_zero, Fin.val_one,
    Fin.val_two, show ((3 : Fin 4) : Nat) = 3 from rfl]
  norm_num
  omega

variable {n : Nat}

/-- The bytes of an array of words. -/
def arrayBytes (ws : Fin n → UInt32) : Fin (n * 4) → UInt8 := fun k =>
  wordBytes (ws ⟨k / 4, by omega⟩) ⟨k % 4, by omega⟩

/-- The array of words in the given bytes. -/
def arrayWords (bs : Fin (n * 4) → UInt8) : Fin n → UInt32 := fun i =>
  wordOf fun j => bs ⟨i * 4 + j, by omega⟩

@[simp] theorem arrayWords_arrayBytes (ws : Fin n → UInt32) : arrayWords (arrayBytes ws) = ws := by
  funext i
  have hbytes : (fun j : Fin 4 => arrayBytes ws ⟨i * 4 + j, by omega⟩) = wordBytes (ws i) := by
    funext j
    simp only [arrayBytes, show (i.val * 4 + j.val) / 4 = i.val by omega,
      show (i.val * 4 + j.val) % 4 = j.val by omega]
  rw [arrayWords, hbytes, wordOf_wordBytes]

end DemandPaging

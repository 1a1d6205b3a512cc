/-
# Network and host byte order

The two conversions of `byteorder/byte_order.go`.  Both reverse the four bytes
of a word unconditionally, so they are one involution: `htonl_word32`,
`ntohl_htonl`, `htonl_ntohl`.
-/
import Kubezonnet.WordBytes

open WordBytes

namespace ByteOrder

/-- `Htonl`: host to network byte order. -/
def htonl (x : UInt32) : UInt32 :=
  (x <<< 24) ||| ((x <<< 8) &&& (0x00FF0000 : UInt32))
    ||| ((x >>> 8) &&& (0x0000FF00 : UInt32)) ||| (x >>> 24)

/-- `Ntohl`: network to host byte order, the same expression again. -/
def ntohl (x : UInt32) : UInt32 :=
  (x <<< 24) ||| ((x <<< 8) &&& (0x00FF0000 : UInt32))
    ||| ((x >>> 8) &&& (0x0000FF00 : UInt32)) ||| (x >>> 24)

/-- The bits of a converted word are those of the bytes in reverse. -/
theorem getLsbD_htonl (x : UInt32) {i : ℕ} (hi : i < 32) :
    (htonl x).toBitVec.getLsbD i
      = if i < 8 then x.toBitVec.getLsbD (24 + i)
        else if i < 16 then x.toBitVec.getLsbD (8 + i)
        else if i < 24 then x.toBitVec.getLsbD (i - 8)
        else x.toBitVec.getLsbD (i - 24) := by
  have hmask : ∀ i (hi : i < 32), (0x00FF0000#32)[i] = (decide (16 ≤ i) && decide (i < 24))
      ∧ (0x0000FF00#32)[i] = (decide (8 ≤ i) && decide (i < 16)) := by decide
  have hhigh : ∀ j, 32 ≤ j → x.toBitVec.getLsbD j = false := fun j hj =>
    BitVec.getLsbD_of_ge _ _ hj
  have hbits : (htonl x).toBitVec.getLsbD i
      = (!decide (i < 24) && x.toBitVec.getLsbD (i - 24)
        || !decide (i < 8) && x.toBitVec.getLsbD (i - 8) && (decide (16 ≤ i) && decide (i < 24))
        || x.toBitVec.getLsbD (8 + i) && (decide (8 ≤ i) && decide (i < 16))
        || x.toBitVec.getLsbD (24 + i)) := by
    rw [BitVec.getLsbD_eq_getElem (by omega : i - 24 < 32),
      BitVec.getLsbD_eq_getElem (by omega : i - 8 < 32)]
    simp [htonl, hi, hmask i hi]
  rw [hbits]
  -- in each of the four ranges only one of the shifted words has bits
  split_ifs with h8 h16 h24
  · simp [h8, show i < 24 by omega, show ¬ 16 ≤ i by omega, show ¬ 8 ≤ i by omega]
  · simp [h8, h16, show i < 24 by omega, show ¬ 16 ≤ i by omega, show 8 ≤ i by omega,
      hhigh (24 + i) (by omega)]
  · simp [h8, h16, h24, show 16 ≤ i by omega, hhigh (24 + i) (by omega)]
  · simp [h16, h24, hhigh (24 + i) (by omega)]

/-- The conversion reverses the four bytes of a word. -/
theorem htonl_word32 (a b c d : UInt8) : htonl (word32 a b c d) = word32 d c b a := by
  apply UInt32.toBitVec_inj.1
  apply BitVec.eq_of_getLsbD_eq
  intro i hi
  rw [getLsbD_htonl _ hi, getLsbD_word32 _ _ _ _ hi]
  split_ifs with h8 h16 h24
  · rw [getLsbD_word32 _ _ _ _ (by omega), if_neg (by omega), if_neg (by omega), if_neg (by omega),
      Nat.add_sub_cancel_left]
  · rw [getLsbD_word32 _ _ _ _ (by omega), if_neg (by omega), if_neg (by omega), if_pos (by omega),
      show 8 + i - 16 = i - 8 by omega]
  · rw [getLsbD_word32 _ _ _ _ (by omega), if_neg (by omega), if_pos (by omega),
      show i - 8 - 8 = i - 16 by omega]
  · rw [getLsbD_word32 _ _ _ _ (by omega), if_pos (by omega)]

theorem ntohl_word32 (a b c d : UInt8) : ntohl (word32 a b c d) = word32 d c b a :=
  htonl_word32 a b c d

/-- Converting twice gives the word back. -/
@[simp] theorem ntohl_htonl (x : UInt32) : ntohl (htonl x) = x := by
  obtain ⟨a, b, c, d, rfl⟩ := exists_word32 x
  rw [htonl_word32, ntohl_word32]

@[simp] theorem htonl_ntohl (x : UInt32) : htonl (ntohl x) = x :=
  ntohl_htonl x

@[simp] theorem htonl_htonl (x : UInt32) : htonl (htonl x) = x :=
  ntohl_htonl x

/-- Reversing the bytes of two words commutes with masking one by the other. -/
theorem htonl_and (x y : UInt32) : htonl (x &&& y) = htonl x &&& htonl y := by
  obtain ⟨a, b, c, d, rfl⟩ := exists_word32 x
  obtain ⟨a', b', c', d', rfl⟩ := exists_word32 y
  rw [word32_and, htonl_word32, htonl_word32, htonl_word32, word32_and]

theorem htonl_injective : Function.Injective htonl :=
  Function.LeftInverse.injective ntohl_htonl

/-! ## Loads -/

/-- The word that a host loads where the bytes in memory are those of the given
word from the most significant one on. -/
def hostWord : Endian → UInt32 → UInt32
  | .little, x => htonl x
  | .big, x => x

theorem loadWord32_eq (e : Endian) (a b c d : UInt8) :
    loadWord32 e a b c d = hostWord e (word32 a b c d) := by
  cases e with
  | little => exact (htonl_word32 a b c d).symm
  | big => rfl

/-- On a little-endian host, the word loaded from four bytes in network order
becomes the word those bytes denote. -/
theorem ntohl_loadWord32_little (a b c d : UInt8) :
    ntohl (loadWord32 .little a b c d) = word32 a b c d :=
  ntohl_word32 d c b a

end ByteOrder

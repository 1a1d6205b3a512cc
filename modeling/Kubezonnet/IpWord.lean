/-
# From addresses to words

`ipToUint32` turns an address into a word by way of its text: it splits the
text at the dots and shifts every decimal part into place.  The server and the
agent each have their own copy.  `none` is a panic, on a part that is not a
number or on a negative shift count.

Both copies are only called behind the guards `ip == nil || ip.To4() == nil`;
behind these they return the word of the four address bytes
(`ipToUint32_of_to4`), so that a guarded conversion never panics
(`guardedWord_eq`).
-/
import Kubezonnet.WordBytes
import Kubezonnet.GoNet

open WordBytes GoNet

namespace IpWord

/-- The loop of `ipToUint32` over the parts of the text, at part `i`. -/
def ipToUint32Loop : List (List Char) → ℕ → UInt32 → Option UInt32
  | [], _, result => some result
  | part :: parts, i, result => do
      let num ← atoi part
      -- from the fifth part on, the shift count `24 - 8*i` is negative
      if 24 < 8 * i then none
      else ipToUint32Loop parts (i + 1) (result ||| UInt32.ofInt num <<< UInt32.ofNat (24 - 8 * i))

/-- The body of `ipToUint32`, which the server and the agent each have a copy of. -/
def ipToUint32 (ip : IP) : Option UInt32 :=
  ipToUint32Loop ((ipString ip).splitOn '.') 0 0

/-- The conversion of an address string behind the guards of its call sites:
`some none` when the string is not an IPv4 address and is passed over. -/
def guardedWord (toWord : IP → Option UInt32) (s : String) : Option (Option UInt32) :=
  match parseIP s with
  | none => some none
  | some ip => if to4 ip = none then some none else (toWord ip).map some

/-- The word of an address string, `none` unless it is an IPv4 address. -/
def ipv4Word (s : String) : Option UInt32 :=
  match parseIPv4 s with
  | some [a, b, c, d] => some (word32 a b c d)
  | _ => none

/-- On an IPv4 address `ipToUint32` gives the word of its four bytes. -/
theorem ipToUint32_of_to4 {ip : IP} {a b c d : UInt8} (h : to4 ip = some [a, b, c, d]) :
    ipToUint32 ip = some (word32 a b c d) := by
  have hbyte (x : UInt8) : UInt32.ofInt (x.toNat : ℤ) = x.toUInt32 := by
    apply UInt32.toNat_inj.1
    have hx : x.toNat < 256 := x.toNat_lt
    rw [UInt32.ofInt, UInt32.toNat_ofNat', UInt8.toNat_toUInt32]
    omega
  have hshift : ∀ i < 4, ¬ 24 < 8 * i := by omega
  rw [ipToUint32, splitOn_ipString h]
  simp only [ipToUint32Loop, atoi_decimal, Option.bind_eq_bind, Option.bind_some, hbyte,
    hshift 0 (by omega), hshift 1 (by omega), hshift 2 (by omega), hshift 3 (by omega),
    ↓reduceIte, Option.some.injEq, Nat.reduceAdd]
  simp [word32]

/-- A guarded conversion does not panic, and gives the word of the address. -/
theorem guardedWord_eq (s : String) : guardedWord ipToUint32 s = some (ipv4Word s) := by
  unfold guardedWord ipv4Word parseIPv4
  cases hip : parseIP s with
  | none => rfl
  | some ip =>
      rw [Option.bind_some]
      cases h4 : to4 ip with
      | none => simp [h4]
      | some v4 =>
          obtain ⟨a, b, c, d, rfl⟩ := exists_of_to4 h4
          simp [h4, ipToUint32_of_to4 h4]

/-- The word of an address string in terms of its four bytes. -/
theorem ipv4Word_eq_some_iff {s : String} {a b c d : UInt8} :
    ipv4Word s = some (word32 a b c d) ↔ parseIPv4 s = some [a, b, c, d] := by
  constructor
  · intro h
    unfold ipv4Word at h
    split at h
    · rename_i hbytes
      obtain ⟨rfl, rfl, rfl, rfl⟩ := word32_inj.1 (Option.some.inj h)
      exact hbytes
    · cases h
  · intro h
    rw [ipv4Word, h]

end IpWord

/-
# Slices with a capacity

A Go slice sees `len` elements of a backing array that may reach further, up to
its capacity.  Re-slicing checks its bounds against the capacity and not against
the length, so a slice expression can reach elements past the end of the slice
it is taken from.  A failed bounds check is a run-time panic and gives `none`
here.

`readBE` and `writeBE` are the fixed-width reads and writes of
`encoding/binary`'s `BigEndian`; `readBE_eq` and `writeBE_eq` say what they do
on a backing array cut into a prefix, the bytes at hand and the rest.
-/
import Kubezonnet.WordBytes

open WordBytes

namespace GoSlice

/-! ## Slices -/

/-- A slice: the backing array from its first element up to its capacity, and its
length, which the capacity bounds. -/
structure Slice (α : Type) : Type where
  arr : List α
  len : ℕ
  len_le_cap : len ≤ arr.length
  deriving DecidableEq, Repr

variable {α : Type}

/-- The capacity of a slice. -/
def Slice.cap (s : Slice α) : ℕ := s.arr.length

/-- The elements a slice sees. -/
def Slice.elems (s : Slice α) : List α := s.arr.take s.len

/-- A slice whose capacity is its length. -/
def Slice.ofList (xs : List α) : Slice α := ⟨xs, xs.length, le_rfl⟩

/-- `make([]T, n)`, where `zero` is the zero value of `T`. -/
def Slice.make (zero : α) (n : ℕ) : Slice α := Slice.ofList (List.replicate n zero)

/-- The slice expression `s[lo:hi]`. -/
def Slice.sub (s : Slice α) (lo hi : ℕ) : Option (Slice α) :=
  if h : lo ≤ hi ∧ hi ≤ s.cap then
    some ⟨s.arr.drop lo, hi - lo, by
      have hcap : hi ≤ s.arr.length := h.2
      rw [List.length_drop]
      omega⟩
  else none

@[simp] theorem elems_ofList (xs : List α) : (Slice.ofList xs).elems = xs :=
  List.take_length

@[simp] theorem len_ofList (xs : List α) : (Slice.ofList xs).len = xs.length := rfl

@[simp] theorem cap_ofList (xs : List α) : (Slice.ofList xs).cap = xs.length := rfl

@[simp] theorem cap_make (zero : α) (n : ℕ) : (Slice.make zero n).cap = n :=
  List.length_replicate

@[simp] theorem arr_ofList (xs : List α) : (Slice.ofList xs).arr = xs := rfl

@[simp] theorem length_elems (s : Slice α) : s.elems.length = s.len := by
  rw [Slice.elems, List.length_take, Nat.min_eq_left s.len_le_cap]

/-- A slice whose first elements are overwritten with `xs`. -/
def Slice.fill (s : Slice α) (xs : List α) : Slice α :=
  ⟨xs ++ s.arr.drop xs.length, s.len, by
    have hlen : s.len ≤ s.arr.length := s.len_le_cap
    rw [List.length_append, List.length_drop]
    omega⟩

@[simp] theorem cap_fill {s : Slice α} {xs : List α} (h : xs.length ≤ s.cap) :
    (s.fill xs).cap = s.cap := by
  unfold Slice.cap at h ⊢
  rw [Slice.fill, List.length_append, List.length_drop]
  omega

/-- Re-slicing from the start, within the capacity, sees the array up to there. -/
theorem exists_sub_zero {s : Slice α} {hi : ℕ} (h : hi ≤ s.cap) :
    ∃ t, s.sub 0 hi = some t ∧ t.arr = s.arr ∧ t.len = hi := by
  have hbounds : 0 ≤ hi ∧ hi ≤ s.cap := ⟨Nat.zero_le hi, h⟩
  rw [Slice.sub, dif_pos hbounds]
  exact ⟨_, rfl, rfl, rfl⟩

/-- Re-slicing a filled slice to what it was filled with sees nothing older. -/
theorem exists_sub_fill {s : Slice α} {xs : List α} (h : xs.length ≤ s.cap) :
    ∃ t, (s.fill xs).sub 0 xs.length = some t ∧ t.cap = s.cap ∧ t.elems = xs := by
  have hcap : (s.fill xs).cap = s.cap := cap_fill h
  have hfit : xs.length ≤ (s.fill xs).cap := by rw [hcap]; exact h
  obtain ⟨t, ht, harr, hlen⟩ := exists_sub_zero hfit
  refine ⟨t, ht, ?_, ?_⟩
  · rw [Slice.cap, harr]
    exact hcap
  · rw [Slice.elems, harr, hlen]
    exact List.take_left

/-! ## Big-endian reads -/

/-- The `w`-byte big-endian read at the start of `s[lo:hi]`; it panics when a
bound is out of range or fewer than `w` bytes are left. -/
def Slice.readBE (s : Slice UInt8) (w lo hi : ℕ) : Option ℕ := do
  let t ← s.sub lo hi
  if w ≤ t.len then some (beNat (t.elems.take w)) else none

/-- `binary.BigEndian.Uint16(s[lo:hi])`. -/
def Slice.uint16 (s : Slice UInt8) (lo hi : ℕ) : Option UInt16 :=
  (s.readBE 2 lo hi).map UInt16.ofNat

/-- `binary.BigEndian.Uint32(s[lo:hi])`. -/
def Slice.uint32 (s : Slice UInt8) (lo hi : ℕ) : Option UInt32 :=
  (s.readBE 4 lo hi).map UInt32.ofNat

/-- `binary.BigEndian.Uint64(s[lo:hi])`. -/
def Slice.uint64 (s : Slice UInt8) (lo hi : ℕ) : Option UInt64 :=
  (s.readBE 8 lo hi).map UInt64.ofNat

/-- A read of the whole of `s[lo:hi]` gives the number its bytes denote. -/
theorem readBE_eq {s : Slice UInt8} {pre bs post : List UInt8} {w lo hi : ℕ}
    (harr : s.arr = pre ++ bs ++ post) (hlo : lo = pre.length) (hw : w = bs.length)
    (hhi : hi = lo + w) :
    s.readBE w lo hi = some (beNat bs) := by
  subst hlo hw hhi
  have hcap : pre.length + bs.length ≤ s.cap := by
    rw [Slice.cap, harr, List.length_append, List.length_append]
    omega
  have helems : (List.drop pre.length s.arr).take bs.length = bs := by
    rw [harr, List.append_assoc, List.drop_left, List.take_left]
  simp only [Slice.readBE, Slice.sub, Nat.le_add_right, hcap, and_self, ↓reduceDIte,
    Option.bind_eq_bind, Option.bind_some, Nat.add_sub_cancel_left, le_refl, ↓reduceIte,
    Slice.elems, List.take_take, min_self, helems]

/-- A read of the bytes a number was written as gives the number. -/
theorem readBE_beBytes {s : Slice UInt8} {pre post : List UInt8} {w n lo hi : ℕ}
    (harr : s.arr = pre ++ beBytes w n ++ post) (hlo : lo = pre.length) (hhi : hi = lo + w) :
    s.readBE w lo hi = some (n % 256 ^ w) := by
  rw [readBE_eq harr hlo (length_beBytes w n).symm hhi, beNat_beBytes]

theorem uint16_beBytes {s : Slice UInt8} (pre : List UInt8) {post : List UInt8} {x : UInt16}
    {lo hi : ℕ} (harr : s.arr = pre ++ beBytes 2 x.toNat ++ post) (hlo : lo = pre.length)
    (hhi : hi = lo + 2) : s.uint16 lo hi = some x := by
  have hx : x.toNat % 256 ^ 2 = x.toNat := Nat.mod_eq_of_lt x.toNat_lt
  rw [Slice.uint16, readBE_beBytes harr hlo hhi, hx, Option.map_some, UInt16.ofNat_toNat]

theorem uint32_beBytes {s : Slice UInt8} (pre : List UInt8) {post : List UInt8} {x : UInt32}
    {lo hi : ℕ} (harr : s.arr = pre ++ beBytes 4 x.toNat ++ post) (hlo : lo = pre.length)
    (hhi : hi = lo + 4) : s.uint32 lo hi = some x := by
  have hx : x.toNat % 256 ^ 4 = x.toNat := Nat.mod_eq_of_lt x.toNat_lt
  rw [Slice.uint32, readBE_beBytes harr hlo hhi, hx, Option.map_some, UInt32.ofNat_toNat]

theorem uint64_beBytes {s : Slice UInt8} (pre : List UInt8) {post : List UInt8} {x : UInt64}
    {lo hi : ℕ} (harr : s.arr = pre ++ beBytes 8 x.toNat ++ post) (hlo : lo = pre.length)
    (hhi : hi = lo + 8) : s.uint64 lo hi = some x := by
  have hx : x.toNat % 256 ^ 8 = x.toNat := Nat.mod_eq_of_lt x.toNat_lt
  rw [Slice.uint64, readBE_beBytes harr hlo hhi, hx, Option.map_some, UInt64.ofNat_toNat]

/-- A slice expression whose upper bound is below its lower bound panics. -/
theorem readBE_eq_none_of_lt {s : Slice UInt8} {w lo hi : ℕ} (h : hi < lo) :
    s.readBE w lo hi = none := by
  have hbounds : ¬ (lo ≤ hi ∧ hi ≤ s.cap) := by omega
  simp only [Slice.readBE, Slice.sub, hbounds, ↓reduceDIte, Option.bind_eq_bind,
    Option.bind_none]

/-! ## Big-endian writes -/

/-- The array `arr` with the bytes from position `lo` on replaced by `bs`. -/
def overwrite (arr : List UInt8) (lo : ℕ) (bs : List UInt8) : List UInt8 :=
  arr.take lo ++ bs ++ arr.drop (lo + bs.length)

/-- The `w`-byte big-endian write at the start of `s[lo:hi]`, which shares its
array with `s`; it panics when a bound is out of range or fewer than `w` bytes
are left. -/
def Slice.writeBE (s : Slice UInt8) (w lo hi n : ℕ) : Option (Slice UInt8) :=
  if h : lo ≤ hi ∧ hi ≤ s.cap ∧ w ≤ hi - lo then
    some ⟨overwrite s.arr lo (beBytes w n), s.len, by
      have hcap : hi ≤ s.arr.length := h.2.1
      have hlen : s.len ≤ s.arr.length := s.len_le_cap
      simp only [overwrite, List.length_append, List.length_take, List.length_drop,
        length_beBytes]
      omega⟩
  else none

/-- `binary.BigEndian.PutUint16(s[lo:hi], v)`. -/
def Slice.putUint16 (s : Slice UInt8) (lo hi : ℕ) (v : UInt16) : Option (Slice UInt8) :=
  s.writeBE 2 lo hi v.toNat

/-- `binary.BigEndian.PutUint32(s[lo:hi], v)`. -/
def Slice.putUint32 (s : Slice UInt8) (lo hi : ℕ) (v : UInt32) : Option (Slice UInt8) :=
  s.writeBE 4 lo hi v.toNat

/-- `binary.BigEndian.PutUint64(s[lo:hi], v)`. -/
def Slice.putUint64 (s : Slice UInt8) (lo hi : ℕ) (v : UInt64) : Option (Slice UInt8) :=
  s.writeBE 8 lo hi v.toNat

/-- Overwriting the middle of an array leaves its prefix and the rest alone. -/
theorem overwrite_append (pre mid post bs : List UInt8) (h : mid.length = bs.length) :
    overwrite (pre ++ mid ++ post) pre.length bs = pre ++ bs ++ post := by
  rw [overwrite, List.append_assoc pre mid post, List.take_left,
    ← List.drop_drop, List.drop_left, ← h, List.drop_left]

/-- A write of the whole of `s[lo:hi]` replaces just those bytes. -/
theorem writeBE_eq (pre mid post : List UInt8) {w lo hi : ℕ} (n : ℕ)
    (hlo : lo = pre.length) (hw : w = mid.length) (hhi : hi = lo + w) :
    (Slice.ofList (pre ++ mid ++ post)).writeBE w lo hi n
      = some (Slice.ofList (pre ++ beBytes w n ++ post)) := by
  subst hlo hw hhi
  have hbounds : pre.length ≤ pre.length + mid.length
      ∧ pre.length + mid.length ≤ (Slice.ofList (pre ++ mid ++ post)).cap
      ∧ mid.length ≤ pre.length + mid.length - pre.length := by
    rw [cap_ofList, List.length_append, List.length_append]
    omega
  have harr : overwrite (pre ++ mid ++ post) pre.length (beBytes mid.length n)
      = pre ++ beBytes mid.length n ++ post :=
    overwrite_append _ _ _ _ (length_beBytes _ _).symm
  rw [Slice.writeBE, dif_pos hbounds]
  simp only [harr, Slice.ofList, Option.some.injEq, Slice.mk.injEq, true_and]
  simp only [List.length_append, length_beBytes]

/-- A write right after what has been written so far replaces the zeros there. -/
theorem writeBE_zeros (done post : List UInt8) {w lo hi : ℕ} (n : ℕ) (hlo : lo = done.length)
    (hhi : hi = lo + w) :
    (Slice.ofList (done ++ (List.replicate w 0 ++ post))).writeBE w lo hi n
      = some (Slice.ofList ((done ++ beBytes w n) ++ post)) := by
  rw [← List.append_assoc]
  exact writeBE_eq done _ post n hlo (by rw [List.length_replicate]) hhi

end GoSlice

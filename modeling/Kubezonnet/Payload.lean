/-
# The payload format

`payload/payload.go`: the keys and values an agent reads from its eBPF map, the
entries the server works on, and the two loops between them.  The first four
bytes of a payload hold the number of entries; every entry takes twenty bytes.

`encode` and `decode` are the loops of the source, with every slice expression
and index checked as Go checks it: `none` is a run-time panic.  The arithmetic
of `encode` is done in `int`, that of `decode` in `uint32`.
-/
import Kubezonnet.ByteOrder
import Kubezonnet.GoSlice

open GoSlice ByteOrder

namespace Payload

/-! ## Data -/

/-- `IPKey`: the key of the eBPF map, a pair of addresses and ports. -/
structure IPKey : Type where
  srcIP : UInt32
  dstIP : UInt32
  srcPort : UInt16
  dstPort : UInt16
  deriving DecidableEq, Repr

/-- `IPValue`: the value of the eBPF map, a total of packet sizes. -/
structure IPValue : Type where
  packetSize : UInt64
  deriving DecidableEq, Repr

/-- `Entry`: one decoded entry. -/
structure Entry : Type where
  srcIP : UInt32
  dstIP : UInt32
  srcPort : UInt16
  dstPort : UInt16
  traffic : UInt64
  deriving DecidableEq, Repr

/-! ## Encode -/

/-- The loop of `Encode` over the remaining keys, at index `i` and position
`offset` of the buffer. -/
def encodeLoop (values : List IPValue) : List IPKey → ℕ → ℕ → Slice UInt8 → Option (Slice UInt8)
  | [], _, _, buf => some buf
  | srcDst :: keys, i, offset, buf => do
      let buf ← buf.putUint32 offset (offset + 4) srcDst.srcIP
      let buf ← buf.putUint32 (offset + 4) (offset + 8) srcDst.dstIP
      let buf ← buf.putUint16 (offset + 8) (offset + 10) srcDst.srcPort
      let buf ← buf.putUint16 (offset + 10) (offset + 12) srcDst.dstPort
      let value ← values[i]?
      let buf ← buf.putUint64 (offset + 12) (offset + 20) value.packetSize
      encodeLoop values keys (i + 1) (offset + 20) buf

/-- `Encode`. -/
def encode (keys : List IPKey) (values : List IPValue) : Option (Slice UInt8) := do
  let size := 4 + 20 * keys.length
  let buf := Slice.make (0 : UInt8) size
  let buf ← buf.putUint32 0 4 (UInt32.ofNat keys.length)
  encodeLoop values keys 0 4 buf

/-! ## Decode -/

/-- One iteration of the loop of `Decode`.  The offsets are `uint32` values. -/
def decodeEntry (buf : Slice UInt8) (i : UInt32) : Option Entry := do
  let offset : UInt32 := 4 + i * 20
  let srcIP ← buf.uint32 offset.toNat (offset + 4).toNat
  let dstIP ← buf.uint32 (offset + 4).toNat (offset + 8).toNat
  let srcPort ← buf.uint16 (offset + 8).toNat (offset + 10).toNat
  let dstPort ← buf.uint16 (offset + 10).toNat (offset + 12).toNat
  let traffic ← buf.uint64 (offset + 12).toNat (offset + 20).toNat
  some
    { srcIP := ntohl srcIP
      dstIP := ntohl dstIP
      srcPort := srcPort
      dstPort := dstPort
      traffic := traffic }

/-- The loop of `Decode` from index `i` on, with `n` iterations to go. -/
def decodeLoop (buf : Slice UInt8) : UInt32 → ℕ → Option (List Entry)
  | _, 0 => some []
  | i, n + 1 => do
      let entry ← decodeEntry buf i
      let entries ← decodeLoop buf (i + 1) n
      some (entry :: entries)

/-- `Decode`: the entries, or the text of the error it returns. -/
def decode (buf : Slice UInt8) : Option (Except String (List Entry)) :=
  if buf.len < 4 then some (.error "unexpected length of buffer")
  else do
    let numEntries ← buf.uint32 0 4
    let size : UInt32 := 4 + 20 * numEntries
    if UInt32.ofNat buf.len ≠ size then
      some (.error "unexpected length of buffer for number of entries")
    else do
      let entries ← decodeLoop buf 0 numEntries.toNat
      some (.ok entries)

end Payload

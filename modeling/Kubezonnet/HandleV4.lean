/-
# The eBPF program

`agent/kubezonnet.c`: the program that the agent attaches to the netfilter hook
after routing.  It reads an IPv4 header, tests both addresses against the subnet
and counts the packet in `ip_map` under its addresses and ports.

The host's byte order is a parameter of every load.  A word of the header is
loaded as the host loads words, and so are the two constants that the agent
installs, so the keys of `ip_map` are the ones the Go side reads back
(`Payload.IPKey`).  The kernel's helpers are modelled by what they are
documented to do: a slice of a dynptr is null unless all of its bytes are in the
packet, and an update of a hash map that is full fails for a new key.
-/
import Kubezonnet.GoMap
import Kubezonnet.Payload

open WordBytes Payload

namespace Ebpf

/-! ## Packets -/

/-- `struct __sk_buff`: the bytes of the packet from its IP header on, and
whether the kernel makes a dynptr of it. -/
structure SkBuff : Type where
  data : List UInt8
  hasDynptr : Bool
  deriving DecidableEq, Repr

/-- `bpf_dynptr_from_skb`, `none` where it returns an error. -/
def bpfDynptrFromSkb (skb : SkBuff) : Option (List UInt8) :=
  if skb.hasDynptr then some skb.data else none

/-- `bpf_dynptr_slice`, `none` where it returns null. -/
def bpfDynptrSlice (ptr : List UInt8) (offset len : ℕ) : Option (Vector UInt8 len) :=
  if h : offset + len ≤ ptr.length then
    some (Vector.ofFn fun i => ptr.get ⟨offset + i, by omega⟩)
  else none

/-- The byte at an offset. -/
def byteAt (data : List UInt8) (i : ℕ) : UInt8 := data.getD i 0

/-- The bytes of a slice are those of the packet from its offset on. -/
theorem getElem_bpfDynptrSlice {ptr : List UInt8} {offset len : ℕ} {bytes : Vector UInt8 len}
    (h : bpfDynptrSlice ptr offset len = some bytes) {i : ℕ} (hi : i < len) :
    bytes[i] = byteAt ptr (offset + i) := by
  unfold bpfDynptrSlice at h
  split_ifs at h with hlen
  rw [← Option.some.inj h, Vector.getElem_ofFn, byteAt, List.getD_eq_getElem ptr 0 (by omega)]
  rfl

/-- `bpf_ntohs`. -/
def bpfNtohs : Endian → UInt16 → UInt16
  | .little, x => x <<< 8 ||| x >>> 8
  | .big, x => x

/-- The bit field `ihl` of `struct iphdr`, declared first of the two fields of
the first byte: the low half on a little-endian host, the high half on a
big-endian one. -/
def ihlOf : Endian → UInt8 → UInt8
  | .little, b => b &&& 0x0F
  | .big, b => b >>> 4

/-- Swapping a half word as the host loaded it gives its bytes in network order. -/
theorem bpfNtohs_loadWord16 (e : Endian) (a b : UInt8) :
    bpfNtohs e (loadWord16 e a b) = loadWord16 .big a b := by
  cases e with
  | big => rfl
  | little =>
      unfold bpfNtohs loadWord16
      apply UInt16.toBitVec_inj.1
      apply BitVec.eq_of_getLsbD_eq
      intro i hi
      interval_cases i <;> simp

/-! ## The flow of a packet -/

/-- `subnet_prefix` and `subnet_mask`. -/
structure Config : Type where
  subnetPrefix : UInt32
  subnetMask : UInt32
  deriving DecidableEq, Repr

/-- `IPPROTO_TCP`. -/
def ipprotoTcp : UInt8 := 6

/-- `IPPROTO_UDP`. -/
def ipprotoUdp : UInt8 := 17

/-- The ports `handle_v4` puts into the key: zero unless the packet is TCP or UDP
and has four bytes after its header. -/
def portsOf (e : Endian) (ptr : List UInt8) (ip : Vector UInt8 20) : UInt16 × UInt16 :=
  let protocol := ip[9]
  let ihl := ihlOf e ip[0]
  if protocol = ipprotoTcp ∨ protocol = ipprotoUdp then
    match bpfDynptrSlice ptr (ihl.toNat * 4) 4 with
    | some ports =>
        (bpfNtohs e (loadWord16 e ports[0] ports[1]), bpfNtohs e (loadWord16 e ports[2] ports[3]))
    | none => (0, 0)
  else (0, 0)

/-- `handle_v4` up to its use of the map: the key and the size of the packet,
`none` when the packet is not counted. -/
def flowOf (e : Endian) (config : Config) (skb : SkBuff) : Option (IPKey × UInt64) := do
  let ptr ← bpfDynptrFromSkb skb
  let ip ← bpfDynptrSlice ptr 0 20
  let saddr := loadWord32 e ip[12] ip[13] ip[14] ip[15]
  let daddr := loadWord32 e ip[16] ip[17] ip[18] ip[19]
  if saddr &&& config.subnetMask = config.subnetPrefix
      ∧ daddr &&& config.subnetMask = config.subnetPrefix then
    let (srcPort, dstPort) := portsOf e ptr ip
    let key : IPKey := { srcIP := saddr, dstIP := daddr, srcPort := srcPort, dstPort := dstPort }
    let packetSize := (bpfNtohs e (loadWord16 e ip[2] ip[3])).toUInt64
    some (key, packetSize)
  else none

/-! ## The map -/

/-- `ip_map`. -/
abbrev IpMap : Type := Finmap fun _ : IPKey => IPValue

/-- The `max_entries` of `ip_map`. -/
def maxEntries : ℕ := 1024

/-- `bpf_map_update_elem` with `BPF_ANY`. -/
def bpfMapUpdateElem (ipMap : IpMap) (key : IPKey) (value : IPValue) : IpMap :=
  if key ∈ ipMap ∨ ipMap.keys.card < maxEntries then ipMap.insert key value else ipMap

/-- The use `handle_v4` makes of the map, when nothing comes in between. -/
def countFlow (ipMap : IpMap) (key : IPKey) (packetSize : UInt64) : IpMap :=
  match ipMap.lookup key with
  | some value => ipMap.insert key { packetSize := value.packetSize + packetSize }
  | none => bpfMapUpdateElem ipMap key { packetSize := packetSize }

/-- `NF_ACCEPT`. -/
def nfAccept : ℤ := 1

/-- `handle_v4`, when nothing comes in between: its verdict and the map after it. -/
def handleV4 (e : Endian) (config : Config) (skb : SkBuff) (ipMap : IpMap) : ℤ × IpMap :=
  match flowOf e config skb with
  | some (key, packetSize) => (nfAccept, countFlow ipMap key packetSize)
  | none => (nfAccept, ipMap)

/-! ## Counting bytes -/

/-- The bytes of a key among the flows of some packets. -/
def bytesOf (key : IPKey) (flows : List (IPKey × UInt64)) : ℕ :=
  (flows.map fun flow => if flow.1 = key then flow.2.toNat else 0).sum

theorem bytesOf_append (key : IPKey) (flows flows' : List (IPKey × UInt64)) :
    bytesOf key (flows ++ flows') = bytesOf key flows + bytesOf key flows' := by
  unfold bytesOf
  rw [List.map_append, List.sum_append]

theorem bytesOf_cons (key : IPKey) (flow : IPKey × UInt64) (flows : List (IPKey × UInt64)) :
    bytesOf key (flow :: flows)
      = (if flow.1 = key then flow.2.toNat else 0) + bytesOf key flows :=
  List.sum_cons

theorem bytesOf_singleton (key : IPKey) (flow : IPKey × UInt64) :
    bytesOf key [flow] = if flow.1 = key then flow.2.toNat else 0 :=
  List.sum_singleton

/-- A key that does not appear has no bytes. -/
theorem bytesOf_eq_zero {key : IPKey} {flows : List (IPKey × UInt64)}
    (h : key ∉ flows.map Prod.fst) : bytesOf key flows = 0 := by
  apply List.sum_eq_zero
  intro n hn
  obtain ⟨flow, hflow, rfl⟩ := List.mem_map.1 hn
  have hne : flow.1 ≠ key := fun heq => h (List.mem_map.2 ⟨flow, hflow, heq⟩)
  exact if_neg hne

/-- Some of the flows have at most the bytes of all of them. -/
theorem bytesOf_le_of_sublist (key : IPKey) {flows flows' : List (IPKey × UInt64)}
    (h : flows.Sublist flows') : bytesOf key flows ≤ bytesOf key flows' :=
  (h.map _).sum_le_sum fun _ _ => Nat.zero_le _

/-- The bytes counted for a key. -/
def counted (ipMap : IpMap) (key : IPKey) : ℕ :=
  match ipMap.lookup key with
  | some value => value.packetSize.toNat
  | none => 0

theorem counted_of_lookup {ipMap : IpMap} {key : IPKey} {value : IPValue}
    (h : ipMap.lookup key = some value) : counted ipMap key = value.packetSize.toNat := by
  rw [counted, h]

/-- An entry taken out of the map counts no more. -/
theorem counted_erase (ipMap : IpMap) (key k : IPKey) :
    counted (ipMap.erase key) k = if k = key then 0 else counted ipMap k := by
  unfold counted
  by_cases h : k = key
  · rw [if_pos h, h, Finmap.lookup_erase]
  · rw [if_neg h, Finmap.lookup_erase_ne h]

/-- Counting a packet touches no other key. -/
theorem lookup_countFlow_ne (ipMap : IpMap) {key k : IPKey} (packetSize : UInt64) (h : k ≠ key) :
    (countFlow ipMap key packetSize).lookup k = ipMap.lookup k := by
  unfold countFlow bpfMapUpdateElem
  cases ipMap.lookup key with
  | some value => exact Finmap.lookup_insert_of_ne _ h
  | none =>
      show Finmap.lookup k (if _ then _ else _) = _
      split_ifs
      · exact Finmap.lookup_insert_of_ne _ h
      · rfl

/-- Counting a packet adds at most its size to the bytes counted for its key: an
addition can wrap around, and an insertion can fail. -/
theorem counted_countFlow_le (ipMap : IpMap) (key k : IPKey) (packetSize : UInt64) :
    counted (countFlow ipMap key packetSize) k
      ≤ counted ipMap k + bytesOf k [(key, packetSize)] := by
  rw [bytesOf_singleton]
  by_cases hk : k = key
  · subst hk
    rw [if_pos rfl]
    unfold counted countFlow bpfMapUpdateElem
    cases hlookup : ipMap.lookup k with
    | some value =>
        simp only [Finmap.lookup_insert, UInt64.toNat_add]
        exact Nat.mod_le _ _
    | none =>
        dsimp only
        split_ifs
        · simp only [Finmap.lookup_insert, zero_add, le_refl]
        · simp only [hlookup, zero_le]
  · unfold counted
    rw [lookup_countFlow_ne ipMap packetSize hk, if_neg (Ne.symm hk), Nat.add_zero]

end Ebpf

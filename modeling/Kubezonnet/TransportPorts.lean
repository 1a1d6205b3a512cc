/-
# The ports of a key

What the ports of a recorded packet should be is a matter of the transport
header: `transportPorts` reads it off the bytes of the packet.  `handle_v4` reads
the four bytes that its `ihl` points at without a look at the fragment offset,
though the file defines the mask for it, so the ports it records are those of the
transport header exactly if it does not meet the payload of a later fragment
there.

`flowOf_eq` says what the whole flow of a packet is in terms of its bytes.
-/
import Kubezonnet.HandleV4

open ByteOrder Payload WordBytes

namespace Ebpf

/-! ## The transport header -/

/-- The length of the IPv4 header, options included. -/
def headerLength (data : List UInt8) : ℕ := 4 * ((byteAt data 0).toNat % 16)

/-- The fragment offset: `IP_OFFSET` masks its half word. -/
def fragmentOffset (data : List UInt8) : ℕ := beNat [byteAt data 6, byteAt data 7] % 2 ^ 13

/-- The protocol is one whose header starts with two ports. -/
def HasPorts (data : List UInt8) : Prop :=
  byteAt data 9 = ipprotoTcp ∨ byteAt data 9 = ipprotoUdp

instance (data : List UInt8) : Decidable (HasPorts data) := inferInstanceAs (Decidable (_ ∨ _))

/-- The big-endian half word at an offset. -/
def wordAt (data : List UInt8) (i : ℕ) : UInt16 :=
  UInt16.ofNat (beNat [byteAt data i, byteAt data (i + 1)])

/-- The ports of a packet: those at the start of its TCP or UDP header, if the
packet has it, and zero in every other case. -/
def transportPorts (data : List UInt8) : UInt16 × UInt16 :=
  if HasPorts data ∧ fragmentOffset data = 0 ∧ headerLength data + 4 ≤ data.length then
    (wordAt data (headerLength data), wordAt data (headerLength data + 2))
  else (0, 0)

/-! ## What the program reads -/

/-- The offset at which `handle_v4` looks for ports. -/
def readOffset (e : Endian) (data : List UInt8) : ℕ := (ihlOf e (byteAt data 0)).toNat * 4

/-- The four bytes at an offset, zeros unless all of them are in the packet. -/
def portBytes (data : List UInt8) (offset : ℕ) : List UInt8 :=
  if offset + 4 ≤ data.length then
    [byteAt data offset, byteAt data (offset + 1), byteAt data (offset + 2), byteAt data (offset + 3)]
  else [0, 0, 0, 0]

/-- The packet is a later fragment, and the bytes of its payload that are read as
ports are not all zero. -/
def ReadsPayload (e : Endian) (data : List UInt8) : Prop :=
  HasPorts data ∧ fragmentOffset data ≠ 0 ∧ portBytes data (readOffset e data) ≠ [0, 0, 0, 0]

/-- The packet has its transport header, and other bytes than its first four are
read as ports. -/
def ReadsElsewhere (e : Endian) (data : List UInt8) : Prop :=
  HasPorts data ∧ fragmentOffset data = 0 ∧
    portBytes data (readOffset e data) ≠ portBytes data (headerLength data)

/-- The two ports in the four bytes at an offset. -/
def portsAt (data : List UInt8) (offset : ℕ) : UInt16 × UInt16 :=
  if offset + 4 ≤ data.length then (wordAt data offset, wordAt data (offset + 2)) else (0, 0)

theorem transportPorts_eq (data : List UInt8) :
    transportPorts data
      = if HasPorts data ∧ fragmentOffset data = 0 then portsAt data (headerLength data)
        else (0, 0) := by
  unfold transportPorts portsAt
  by_cases hports : HasPorts data
  · by_cases hfirst : fragmentOffset data = 0
    · simp only [hports, hfirst, true_and, and_self, if_true]
    · simp only [hfirst, false_and, and_false, if_false]
  · simp only [hports, false_and, if_false]

/-! ## Ports and bytes -/

/-- The value of a half word in network order. -/
theorem toNat_loadWord16_big (a b : UInt8) :
    (loadWord16 .big a b).toNat = a.toNat * 256 + b.toNat := by
  have ha : a.toNat < 256 := a.toNat_lt
  have hb : b.toNat < 256 := b.toNat_lt
  have hshift : a.toNat <<< 8 % 2 ^ 16 = a.toNat <<< 8 := by
    apply Nat.mod_eq_of_lt
    rw [Nat.shiftLeft_eq]
    omega
  simp only [loadWord16, UInt16.toNat_or, UInt16.toNat_shiftLeft, UInt8.toNat_toUInt16,
    UInt16.reduceToNat, Nat.reduceMod, hshift]
  exact shiftLeft_or_eq_add (k := 8) _ hb

theorem loadWord16_big (a b : UInt8) : loadWord16 .big a b = UInt16.ofNat (beNat [a, b]) := by
  have ha : a.toNat < 256 := a.toNat_lt
  have hb : b.toNat < 256 := b.toNat_lt
  have hnat : beNat [a, b] = a.toNat * 256 + b.toNat := by
    show (0 * 256 + a.toNat) * 256 + b.toNat = _
    rw [Nat.zero_mul, Nat.zero_add]
  have hlt : a.toNat * 256 + b.toNat < 2 ^ 16 := by omega
  apply UInt16.toNat_inj.1
  rw [toNat_loadWord16_big, hnat, UInt16.toNat_ofNat_of_lt' hlt]

theorem loadWord16_big_inj {a b a' b' : UInt8} :
    loadWord16 .big a b = loadWord16 .big a' b' ↔ a = a' ∧ b = b' := by
  have hb : b.toNat < 256 := b.toNat_lt
  have hb' : b'.toNat < 256 := b'.toNat_lt
  rw [← UInt16.toNat_inj, toNat_loadWord16_big, toNat_loadWord16_big, ← UInt8.toNat_inj,
    ← UInt8.toNat_inj]
  omega

/-- The ports at an offset are the half words of the four bytes there. -/
theorem exists_portBytes (data : List UInt8) (i : ℕ) :
    ∃ a b c d, portBytes data i = [a, b, c, d]
      ∧ portsAt data i = (loadWord16 .big a b, loadWord16 .big c d) := by
  unfold portBytes portsAt wordAt
  split_ifs
  · simp only [← loadWord16_big]
    exact ⟨_, _, _, _, rfl, rfl⟩
  · exact ⟨0, 0, 0, 0, rfl, rfl⟩

/-- Ports are equal exactly if the bytes they are read from are. -/
theorem portsAt_inj {data : List UInt8} {i j : ℕ} :
    portsAt data i = portsAt data j ↔ portBytes data i = portBytes data j := by
  obtain ⟨a, b, c, d, hbytes, hports⟩ := exists_portBytes data i
  obtain ⟨a', b', c', d', hbytes', hports'⟩ := exists_portBytes data j
  rw [hbytes, hports, hbytes', hports']
  simp only [Prod.mk.injEq, loadWord16_big_inj, List.cons.injEq, and_true, and_assoc]

/-- Ports are zero exactly if the bytes they are read from are. -/
theorem portsAt_eq_zero_iff {data : List UInt8} {i : ℕ} :
    portsAt data i = (0, 0) ↔ portBytes data i = [0, 0, 0, 0] := by
  obtain ⟨a, b, c, d, hbytes, hports⟩ := exists_portBytes data i
  have hzero : (0 : UInt16) = loadWord16 .big 0 0 := by decide
  rw [hbytes, hports, hzero]
  simp only [Prod.mk.injEq, loadWord16_big_inj, List.cons.injEq, and_true, and_assoc]

/-! ## The program -/

/-- The half word that a slice has in network order. -/
theorem bpfNtohs_slice (e : Endian) {ptr : List UInt8} {offset len : ℕ} {bytes : Vector UInt8 len}
    (h : bpfDynptrSlice ptr offset len = some bytes) {i : ℕ} (hi : i + 1 < len) :
    bpfNtohs e (loadWord16 e bytes[i] bytes[i + 1]) = wordAt ptr (offset + i) := by
  rw [bpfNtohs_loadWord16, loadWord16_big, getElem_bpfDynptrSlice h, getElem_bpfDynptrSlice h]
  rfl

/-- The ports that are read from a packet. -/
def portsRead (e : Endian) (data : List UInt8) : UInt16 × UInt16 :=
  if HasPorts data then portsAt data (readOffset e data) else (0, 0)

/-- `handle_v4` takes the ports of a TCP or UDP packet from where its `ihl` points. -/
theorem portsOf_eq (e : Endian) {data : List UInt8} {ip : Vector UInt8 20}
    (hip : bpfDynptrSlice data 0 20 = some ip) : portsOf e data ip = portsRead e data := by
  have hprotocol : ip[9] = byteAt data 9 := getElem_bpfDynptrSlice hip (by decide)
  have hfirst : ip[0] = byteAt data 0 := getElem_bpfDynptrSlice hip (by decide)
  have hoffset : (ihlOf e (byteAt data 0)).toNat * 4 = readOffset e data := rfl
  unfold portsOf portsRead
  rw [hprotocol, hfirst]
  show (if HasPorts data then _ else _) = _
  by_cases hports : HasPorts data
  · rw [if_pos hports, if_pos hports, portsAt, hoffset]
    cases hslice : bpfDynptrSlice data (readOffset e data) 4 with
    | none =>
        have hlen : ¬ readOffset e data + 4 ≤ data.length := fun hle => by
          simp [bpfDynptrSlice, hle] at hslice
        rw [if_neg hlen]
    | some bytes =>
        have hlen : readOffset e data + 4 ≤ data.length := by
          by_contra hle
          simp [bpfDynptrSlice, hle] at hslice
        rw [if_pos hlen]
        show (_, _) = (_, _)
        rw [bpfNtohs_slice e hslice (by decide), bpfNtohs_slice e hslice (by decide)]
        rfl
  · rw [if_neg hports, if_neg hports]

/-! ## The flow of a packet -/

/-- The source address of a packet. -/
def saddrOf (data : List UInt8) : UInt32 :=
  word32 (byteAt data 12) (byteAt data 13) (byteAt data 14) (byteAt data 15)

/-- The destination address of a packet. -/
def daddrOf (data : List UInt8) : UInt32 :=
  word32 (byteAt data 16) (byteAt data 17) (byteAt data 18) (byteAt data 19)

/-- The packet has a header that the program gets to see. -/
def HasHeader (skb : SkBuff) : Prop := skb.hasDynptr = true ∧ 20 ≤ skb.data.length

/-- Two words pass the comparison with the constants. -/
def Passes (config : Config) (src dst : UInt32) : Prop :=
  src &&& config.subnetMask = config.subnetPrefix ∧ dst &&& config.subnetMask = config.subnetPrefix

instance (skb : SkBuff) : Decidable (HasHeader skb) := inferInstanceAs (Decidable (_ ∧ _))

instance (config : Config) (src dst : UInt32) : Decidable (Passes config src dst) :=
  inferInstanceAs (Decidable (_ ∧ _))

/-- The total length in the header of a packet. -/
def totalLength (data : List UInt8) : UInt64 := (wordAt data 2).toUInt64

/-- The flow of a packet in terms of its bytes. -/
theorem flowOf_eq (e : Endian) (config : Config) (skb : SkBuff) :
    flowOf e config skb
      = if HasHeader skb
            ∧ Passes config (hostWord e (saddrOf skb.data)) (hostWord e (daddrOf skb.data)) then
          some
            ({ srcIP := hostWord e (saddrOf skb.data)
               dstIP := hostWord e (daddrOf skb.data)
               srcPort := (portsRead e skb.data).1
               dstPort := (portsRead e skb.data).2 },
              totalLength skb.data)
        else none := by
  unfold flowOf bpfDynptrFromSkb
  by_cases hptr : skb.hasDynptr = true
  · rw [if_pos hptr]
    by_cases hlen : 20 ≤ skb.data.length
    · obtain ⟨ip, hip⟩ : ∃ ip, bpfDynptrSlice skb.data 0 20 = some ip :=
        ⟨_, dif_pos (by rwa [Nat.zero_add])⟩
      have hbyte : ∀ i (hi : i < 20), ip[i] = byteAt skb.data i := by
        intro i hi
        rw [getElem_bpfDynptrSlice hip hi, Nat.zero_add]
      have hsize : bpfNtohs e (loadWord16 e ip[2] ip[3]) = wordAt skb.data 2 := by
        rw [bpfNtohs_slice e hip (i := 2) (by decide)]
      have hports : portsOf e skb.data ip = portsRead e skb.data := portsOf_eq e hip
      have hheader : HasHeader skb := ⟨hptr, hlen⟩
      rw [Option.bind_eq_bind, Option.bind_some, hip, Option.bind_eq_bind, Option.bind_some]
      dsimp only
      rw [hports, hsize]
      simp only [hbyte, loadWord32_eq]
      exact if_congr (and_iff_right hheader).symm rfl rfl
    · have hip : bpfDynptrSlice skb.data 0 20 = none := dif_neg (by omega)
      rw [Option.bind_eq_bind, Option.bind_some, hip, if_neg fun h => hlen h.1.2]
      rfl
  · rw [if_neg hptr, if_neg fun h => hptr h.1.1]
    rfl

/-- A packet is counted exactly if it has a header and both of its addresses pass. -/
theorem isSome_flowOf_iff (e : Endian) (config : Config) (skb : SkBuff) :
    (flowOf e config skb).isSome
      ↔ HasHeader skb
        ∧ Passes config (hostWord e (saddrOf skb.data)) (hostWord e (daddrOf skb.data)) := by
  rw [flowOf_eq]
  split_ifs with hpass
  · exact iff_of_true rfl hpass
  · exact iff_of_false (by simp) hpass

/-- The ports of a recorded packet. -/
theorem ports_of_flowOf {e : Endian} {config : Config} {skb : SkBuff} {key : IPKey}
    {packetSize : UInt64} (h : flowOf e config skb = some (key, packetSize)) :
    (key.srcPort, key.dstPort) = portsRead e skb.data := by
  rw [flowOf_eq] at h
  split_ifs at h
  obtain ⟨rfl, -⟩ := Prod.mk.inj (Option.some.inj h)
  rfl

/-! ## When the ports are right -/

/-- On a little-endian host `ihl` is the low half of the first byte, so ports are
read from the end of the header. -/
theorem readOffset_little (data : List UInt8) : readOffset .little data = headerLength data := by
  have hmask : ∀ b : UInt8, (ihlOf .little b).toNat = b.toNat % 16 := by
    intro b
    exact (UInt8.toNat_and b 0x0F).trans (Nat.and_two_pow_sub_one_eq_mod b.toNat 4)
  rw [readOffset, hmask, headerLength, Nat.mul_comm]

/-- Main result: the ports of a recorded packet are those of its transport header
exactly if neither the payload of a later fragment nor anything else but the
start of the header is read in their place.  The latter cannot be on a
little-endian host. -/
theorem ports_eq_transportPorts_iff {e : Endian} {config : Config} {skb : SkBuff} {key : IPKey}
    {packetSize : UInt64} (h : flowOf e config skb = some (key, packetSize)) :
    ((key.srcPort, key.dstPort) = transportPorts skb.data
        ↔ ¬ ReadsPayload e skb.data ∧ ¬ ReadsElsewhere e skb.data)
      ∧ (e = .little → ¬ ReadsElsewhere e skb.data) := by
  rw [ports_of_flowOf h, portsRead, transportPorts_eq]
  constructor
  · unfold ReadsPayload ReadsElsewhere
    by_cases hports : HasPorts skb.data
    · by_cases hfirst : fragmentOffset skb.data = 0
      · simp only [hports, hfirst, true_and, if_true, and_self, portsAt_inj, ne_eq, not_true_eq_false,
          false_and, not_false_eq_true, not_not]
      · simp only [hports, hfirst, true_and, if_true, and_false, false_and, if_false,
          portsAt_eq_zero_iff, ne_eq, not_false_eq_true, not_not, and_true]
    · simp only [hports, false_and, if_false, not_false_eq_true, and_self]
  · rintro rfl ⟨-, -, hne⟩
    rw [readOffset_little] at hne
    exact hne rfl

/-- `10.0.0.0/24` as the agent of a little-endian host installs it. -/
def subnetTen24 : Config := { subnetPrefix := 0x0000000A, subnetMask := 0x00FFFFFF }

/-- A TCP packet from `10.0.0.1` to `10.0.0.2` of 24 bytes, with the given
fragment offset and the given bytes after the header. -/
def tcpPacket (fragment : UInt8) (rest : List UInt8) : SkBuff where
  data := [0x45, 0, 0, 24, 0, 1, 0, fragment, 64, 6, 0, 0, 10, 0, 0, 1, 10, 0, 0, 2] ++ rest
  hasDynptr := true

/-- The ports of an unfragmented packet are those of its header. -/
theorem ports_eq_transportPorts_first :
    transportPorts (tcpPacket 0 [0x30, 0x39, 0, 80]).data = (12345, 80) ∧
      (((12345 : UInt16), (80 : UInt16)) = transportPorts (tcpPacket 0 [0x30, 0x39, 0, 80]).data
        ↔ ¬ ReadsPayload .little (tcpPacket 0 [0x30, 0x39, 0, 80]).data
          ∧ ¬ ReadsElsewhere .little (tcpPacket 0 [0x30, 0x39, 0, 80]).data) := by
  have hflow : flowOf .little subnetTen24 (tcpPacket 0 [0x30, 0x39, 0, 80])
      = some ({ srcIP := 0x0100000A, dstIP := 0x0200000A, srcPort := 12345, dstPort := 80 }, 24) := by
    decide
  exact ⟨by decide, (ports_eq_transportPorts_iff hflow).1⟩

/-- A later fragment is recorded under ports that are bytes of its payload. -/
theorem ports_ne_transportPorts_fragment :
    let key : IPKey := { srcIP := 0x0100000A, dstIP := 0x0200000A, srcPort := 12345, dstPort := 80 }
    flowOf .little subnetTen24 (tcpPacket 1 [0x30, 0x39, 0, 80]) = some (key, 24)
      ∧ transportPorts (tcpPacket 1 [0x30, 0x39, 0, 80]).data = (0, 0)
      ∧ (key.srcPort, key.dstPort) ≠ transportPorts (tcpPacket 1 [0x30, 0x39, 0, 80]).data := by
  decide

end Ebpf

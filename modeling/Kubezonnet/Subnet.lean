/-
# The subnet that is counted

`Run` of `agent/agent.go` turns the subnet it is given into the two constants of
the eBPF program, and `handle_v4` compares with them the addresses of a packet as
the host loads them.

The prefix is made from the address as it is written, not from the network that
`net.ParseCIDR` returns next to it.  So a subnet without host bits is counted,
every packet within it and no other, and of a subnet with host bits nothing is
(`counts_subnet_iff`).
-/
import Kubezonnet.AgentFilter
import Kubezonnet.ByteOrder
import Kubezonnet.Cidr
import Kubezonnet.TransportPorts

open ByteOrder Ebpf GoNet WordBytes

namespace Agent

/-! ## Configuration -/

/-- `maskToUint32`. -/
def maskToUint32 (mask : List UInt8) : UInt32 :=
  mask.foldl (fun result byteValue => result <<< 8 ||| byteValue.toUInt32) 0

/-- `Run`, from the subnet to the constants of the program: the message before it
exits, or what it installs.  `none` is a panic. -/
def subnetConfig (subnetCidr : String) : Option (Except String Config) :=
  match parseCIDR subnetCidr with
  | none => some (.error "Error: Invalid subnet CIDR")
  | some (ip, ipNet) =>
      if to4 ip = none then some (.error "Error: Invalid subnet CIDR")
      else do
        let ipUint ← ipToUint32 ip
        let maskUint := maskToUint32 ipNet.mask
        some (.ok { subnetPrefix := htonl ipUint, subnetMask := htonl maskUint })

/-! ## Networks -/

/-- The first `n` bits of an address are those of the network. -/
def InNetwork (net : UInt32) (n : ℕ) (addr : UInt32) : Prop :=
  ∀ i < n, addr.toNat.testBit (31 - i) = net.toNat.testBit (31 - i)

/-- An address has no bits after the first `n`. -/
def NoHostBits (addr : UInt32) (n : ℕ) : Prop :=
  ∀ i < 32, n ≤ i → addr.toNat.testBit (31 - i) = false

instance (net : UInt32) (n : ℕ) (addr : UInt32) : Decidable (InNetwork net n addr) :=
  inferInstanceAs (Decidable (∀ i < n, _))

instance (addr : UInt32) (n : ℕ) : Decidable (NoHostBits addr n) :=
  inferInstanceAs (Decidable (∀ i < 32, n ≤ i → _))

/-- The source and the destination of a packet are in the network. -/
def Within (net : UInt32) (n : ℕ) (data : List UInt8) : Prop :=
  InNetwork net n (word32 (byteAt data 12) (byteAt data 13) (byteAt data 14) (byteAt data 15))
    ∧ InNetwork net n (word32 (byteAt data 16) (byteAt data 17) (byteAt data 18) (byteAt data 19))

instance (net : UInt32) (n : ℕ) (data : List UInt8) : Decidable (Within net n data) :=
  inferInstanceAs (Decidable (_ ∧ _))

/-! ## Masks -/

/-- The mask of a prefix length has that many leading one bits. -/
theorem testBit_maskToUint32 {n : ℕ} (hn : n ≤ 32) {i : ℕ} (hi : i < 32) :
    (maskToUint32 (cidrMask n 32)).toNat.testBit (31 - i) = decide (i < n) := by
  have hall : ∀ n ≤ 32, ∀ i < 32,
      (maskToUint32 (cidrMask n 32)).toNat.testBit (31 - i) = decide (i < n) := by
    decide +kernel
  exact hall n hn i hi

/-- Two words are equal exactly if they have the same bits, counted from the most
significant one. -/
theorem eq_iff_testBit {x y : UInt32} :
    x = y ↔ ∀ i < 32, x.toNat.testBit (31 - i) = y.toNat.testBit (31 - i) := by
  constructor
  · rintro rfl i -
    rfl
  · intro h
    apply UInt32.toNat_inj.1
    apply Nat.eq_of_testBit_eq
    intro j
    by_cases hj : j < 32
    · have hbit := h (31 - j) (by omega)
      rwa [show 31 - (31 - j) = j by omega] at hbit
    · have hpow : 2 ^ 32 ≤ 2 ^ j := Nat.pow_le_pow_right (by decide) (by omega)
      rw [Nat.testBit_lt_two_pow (x.toNat_lt.trans_le hpow),
        Nat.testBit_lt_two_pow (y.toNat_lt.trans_le hpow)]

/-- Masking an address gives the prefix exactly if the address is in the network
and the prefix has no host bits. -/
theorem and_mask_eq_iff {addr net : UInt32} {n : ℕ} (hn : n ≤ 32) :
    addr &&& maskToUint32 (cidrMask n 32) = net ↔ InNetwork net n addr ∧ NoHostBits net n := by
  rw [eq_iff_testBit]
  simp only [UInt32.toNat_and, Nat.testBit_and]
  constructor
  · intro h
    constructor
    · intro i hi
      have hbit := h i (by omega)
      rwa [testBit_maskToUint32 hn (by omega), decide_eq_true hi, Bool.and_true] at hbit
    · intro i hi hni
      have hbit := h i hi
      rw [testBit_maskToUint32 hn hi, decide_eq_false (by omega), Bool.and_false] at hbit
      exact hbit.symm
  · rintro ⟨hnet, hhost⟩ i hi
    rw [testBit_maskToUint32 hn hi]
    by_cases hlt : i < n
    · rw [decide_eq_true hlt, Bool.and_true]
      exact hnet i hlt
    · rw [decide_eq_false hlt, Bool.and_false]
      exact (hhost i hi (by omega)).symm

/-! ## The test of the program -/

/-- A subnet in dotted form is accepted, and its constants are the written
address and the mask in the order of the network. -/
theorem subnetConfig_of_isCidr {s : String} {a b c d : UInt8} {n : ℕ} (h : IsCidr s a b c d n) :
    subnetConfig s = some (.ok
      { subnetPrefix := htonl (word32 a b c d)
        subnetMask := htonl (maskToUint32 (cidrMask n 32)) }) := by
  have h4 : to4 (mapped [a, b, c, d]) = some [a, b, c, d] := rfl
  have hword : ipToUint32 (mapped [a, b, c, d]) = some (word32 a b c d) :=
    IpWord.ipToUint32_of_to4 h4
  rw [subnetConfig, parseCIDR_of_isCidr h]
  dsimp only
  rw [h4, if_neg (Option.some_ne_none _), hword]
  rfl

/-- What is counted with the constants of a subnet: the packets within it, if the
written address has no host bits, and nothing otherwise. -/
theorem isSome_flowOf_subnet {net : UInt32} {n : ℕ} (hn : n ≤ 32) {skb : SkBuff}
    (hptr : skb.hasDynptr = true) (hlen : 20 ≤ skb.data.length) :
    (flowOf .little
        { subnetPrefix := htonl net, subnetMask := htonl (maskToUint32 (cidrMask n 32)) } skb).isSome
      ↔ Within net n skb.data ∧ NoHostBits net n := by
  have hheader : HasHeader skb := ⟨hptr, hlen⟩
  rw [isSome_flowOf_iff, and_iff_right hheader]
  simp only [Passes, hostWord, ← htonl_and, htonl_injective.eq_iff, and_mask_eq_iff hn]
  exact and_and_right.symm

/-- Main result: a packet with a header is counted exactly when it is within the
subnet, unless it is within a subnet that is written with host bits.  So this is
what becomes of all packets exactly if the subnet is written without. -/
theorem counts_subnet_iff {s : String} {a b c d : UInt8} {n : ℕ} (h : IsCidr s a b c d n) :
    ∃ config, subnetConfig s = some (.ok config)
      ∧ (∀ skb : SkBuff, skb.hasDynptr = true → 20 ≤ skb.data.length →
          (((flowOf .little config skb).isSome ↔ Within (word32 a b c d) n skb.data)
            ↔ (Within (word32 a b c d) n skb.data → NoHostBits (word32 a b c d) n)))
      ∧ ((∀ skb : SkBuff, skb.hasDynptr = true → 20 ≤ skb.data.length →
            ((flowOf .little config skb).isSome ↔ Within (word32 a b c d) n skb.data))
          ↔ NoHostBits (word32 a b c d) n) := by
  have hn : n ≤ 32 := by
    obtain ⟨-, -, -, -, -, hn⟩ := h
    exact hn
  refine ⟨_, subnetConfig_of_isCidr h, ?_, ?_⟩
  · intro skb hptr hlen
    rw [isSome_flowOf_subnet hn hptr hlen]
    exact and_iff_left_iff_imp
  · constructor
    · intro hall
      -- a packet of the written address to itself is within the subnet
      have hself := hall ⟨List.replicate 12 0 ++ [a, b, c, d, a, b, c, d], true⟩ rfl (by simp)
      rw [isSome_flowOf_subnet hn rfl (by simp)] at hself
      exact (hself.2 ⟨fun i _ => rfl, fun i _ => rfl⟩).2
    · intro hhost skb hptr hlen
      rw [isSome_flowOf_subnet hn hptr hlen]
      exact and_iff_left hhost

/-- A packet from `10.0.0.5` to `10.0.0.7`. -/
def packetTen : SkBuff where
  data := [0x45, 0, 0, 20, 0, 0, 0, 0, 64, 1, 0, 0, 10, 0, 0, 5, 10, 0, 0, 7]
  hasDynptr := true

/-- The network `10.0.0.0/24` is counted. -/
theorem counts_subnet_network :
    ∃ config, subnetConfig "10.0.0.0/24" = some (.ok config)
      ∧ (flowOf .little config packetTen).isSome
      ∧ ((∀ skb : SkBuff, skb.hasDynptr = true → 20 ≤ skb.data.length →
            ((flowOf .little config skb).isSome ↔ Within (word32 10 0 0 0) 24 skb.data))
          ↔ NoHostBits (word32 10 0 0 0) 24) := by
  have hcidr : IsCidr "10.0.0.0/24" 10 0 0 0 24 :=
    ⟨"10.0.0.0".toList, "24".toList, by decide, by decide, by decide, by decide⟩
  obtain ⟨config, hconfig, -, hiff⟩ := counts_subnet_iff hcidr
  have hall := hiff.2 (by decide)
  exact ⟨config, hconfig, (hall packetTen rfl (by decide)).2 (by decide), hiff⟩

/-- Of the same network in the form `10.0.0.5/24` nothing is counted. -/
theorem not_counts_subnet_host_bits :
    ∃ config, subnetConfig "10.0.0.5/24" = some (.ok config)
      ∧ Within (word32 10 0 0 5) 24 packetTen.data
      ∧ (flowOf .little config packetTen).isSome = false := by
  refine ⟨{ subnetPrefix := 0x0500000A, subnetMask := 0x00FFFFFF }, by decide, by decide, by decide⟩

end Agent

/-
# The netfilter hook

`nf_postrouting_hook` of `agent/kubezonnet.c` sees every packet that leaves the
node.  It looks at the protocol of the link layer and hands IPv4 packets to
`handle_v4`; all others pass.  Which packets these are is a matter of the two
bytes of the protocol and not of the host that loads them, and nothing the hook
does holds a packet back (`hook_transparent`).
-/
import Kubezonnet.FlowTotals
import Kubezonnet.TransportPorts

open WordBytes Payload

namespace Ebpf

/-! ## Translation -/

/-- `struct bpf_nf_ctx`: the two bytes of the protocol of the packet, and the packet. -/
structure NfCtx : Type where
  protocol : UInt8 × UInt8
  skb : SkBuff
  deriving DecidableEq, Repr

/-- `ETH_P_IP`. -/
def ethPIp : UInt16 := 0x0800

/-- `ETH_P_IPV6`. -/
def ethPIpv6 : UInt16 := 0x86DD

/-- `nf_postrouting_hook`: its verdict and the map after it. -/
def nfPostroutingHook (e : Endian) (config : Config) (ctx : NfCtx) (ipMap : IpMap) : ℤ × IpMap :=
  let protocol := bpfNtohs e (loadWord16 e ctx.protocol.1 ctx.protocol.2)
  if protocol = ethPIp then handleV4 e config ctx.skb ipMap
  else if protocol = ethPIpv6 then (nfAccept, ipMap)
  else (nfAccept, ipMap)

/-- The verdicts on some packets, and the map after them. -/
def hookAll (e : Endian) (config : Config) : List NfCtx → IpMap → List ℤ × IpMap
  | [], ipMap => ([], ipMap)
  | ctx :: ctxs, ipMap =>
      let (verdict, ipMap) := nfPostroutingHook e config ctx ipMap
      let (verdicts, ipMap) := hookAll e config ctxs ipMap
      (verdict :: verdicts, ipMap)

/-! ## What it counts -/

/-- The packet is an IPv4 packet by the bytes of its protocol. -/
def NfCtx.IsIPv4 (ctx : NfCtx) : Prop := ctx.protocol = (0x08, 0x00)

instance (ctx : NfCtx) : Decidable ctx.IsIPv4 := inferInstanceAs (Decidable (_ = _))

/-- The packets that are IPv4. -/
def ipv4Of (ctxs : List NfCtx) : List SkBuff :=
  (ctxs.filter fun ctx => ctx.IsIPv4).map NfCtx.skb

/-- The comparison of the hook looks at the bytes of the protocol on every host. -/
theorem protocol_eq_ethPIp_iff (e : Endian) (ctx : NfCtx) :
    bpfNtohs e (loadWord16 e ctx.protocol.1 ctx.protocol.2) = ethPIp ↔ ctx.IsIPv4 := by
  have hword : ethPIp = loadWord16 .big 0x08 0x00 := by decide
  rw [bpfNtohs_loadWord16, hword, loadWord16_big_inj]
  unfold NfCtx.IsIPv4
  rw [Prod.ext_iff]

theorem handleV4_fst (e : Endian) (config : Config) (skb : SkBuff) (ipMap : IpMap) :
    (handleV4 e config skb ipMap).1 = nfAccept := by
  unfold handleV4
  cases flowOf e config skb <;> rfl

/-- The hook counts an IPv4 packet and no other, and accepts all of them. -/
theorem nfPostroutingHook_eq (e : Endian) (config : Config) (ctx : NfCtx) (ipMap : IpMap) :
    nfPostroutingHook e config ctx ipMap
      = (nfAccept, if ctx.IsIPv4 then (handleV4 e config ctx.skb ipMap).2 else ipMap) := by
  unfold nfPostroutingHook
  simp only [protocol_eq_ethPIp_iff, ite_self]
  split_ifs
  · exact Prod.ext (handleV4_fst e config ctx.skb ipMap) rfl
  · rfl

/-- Some packets leave the map that the IPv4 packets among them leave. -/
theorem hookAll_eq (e : Endian) (config : Config) (ctxs : List NfCtx) (ipMap : IpMap) :
    hookAll e config ctxs ipMap
      = (List.replicate ctxs.length nfAccept, handleAll e config ipMap (ipv4Of ctxs)) := by
  induction ctxs generalizing ipMap with
  | nil => rfl
  | cons ctx ctxs ih =>
      simp only [hookAll, nfPostroutingHook_eq, ih, List.length_cons, List.replicate_succ]
      by_cases hip : ctx.IsIPv4
      · have hcons : ipv4Of (ctx :: ctxs) = ctx.skb :: ipv4Of ctxs := by
          rw [ipv4Of, List.filter_cons_of_pos (by simpa using hip), List.map_cons]
          rfl
        rw [if_pos hip, hcons]
        rfl
      · have hcons : ipv4Of (ctx :: ctxs) = ipv4Of ctxs := by
          rw [ipv4Of, List.filter_cons_of_neg (by simpa using hip)]
          rfl
        rw [if_neg hip, hcons]

/-- Main result: the hook accepts every packet, of whatever protocol and on hosts
of either byte order.  After any packets the map has the keys of the IPv4 packets
that pass the checks against the constants, those that appear first, as many as it
has room for, each with all the bytes of the key; the other packets play no part. -/
theorem hook_transparent (e : Endian) (config : Config) (ctxs : List NfCtx) :
    (∀ ipMap, ∀ verdict ∈ (hookAll e config ctxs ipMap).1, verdict = nfAccept)
      ∧ (∀ ipMap, (hookAll e config ctxs ipMap).1.length = ctxs.length)
      ∧ ∀ key, (hookAll e config ctxs ∅).2.lookup key
        = if key ∈ (flowKeys (flowsOf e config (ipv4Of ctxs))).take maxEntries then
            some { packetSize := UInt64.ofNat (bytesOf key (flowsOf e config (ipv4Of ctxs))) }
          else none := by
  refine ⟨fun ipMap verdict hverdict => ?_, fun ipMap => ?_, fun key => ?_⟩
  · rw [hookAll_eq] at hverdict
    exact List.eq_of_mem_replicate hverdict
  · rw [hookAll_eq]
    exact List.length_replicate
  · rw [hookAll_eq]
    exact lookup_of_counts (counts_handleAll e config (ipv4Of ctxs)) key

end Ebpf

/-
# What the payload format accepts

`wire` is the layout a payload has: the count, then twenty bytes for every
key and value.  `encode` writes exactly this layout (`encode_eq_wire`), and the
loop of `decode` reads it back entry by entry as long as its 32-bit offsets do
not wrap around (`decodeLoop_wire`).

* `decode_encode`: decoding undoes encoding below the 32-bit limit.
* `decodesExactly_iff`: the wrapped length check is the only reason `decode`
  does not accept exactly the encoded payloads.
-/
import Kubezonnet.Payload

open WordBytes GoSlice ByteOrder

namespace Payload

/-! ## The layout -/

/-- The twenty bytes of one entry. -/
def wireEntry (kv : IPKey × IPValue) : List UInt8 :=
  beBytes 4 kv.1.srcIP.toNat ++ beBytes 4 kv.1.dstIP.toNat ++ beBytes 2 kv.1.srcPort.toNat
    ++ beBytes 2 kv.1.dstPort.toNat ++ beBytes 8 kv.2.packetSize.toNat

/-- The bytes of a payload. -/
def wire (kvs : List (IPKey × IPValue)) : List UInt8 :=
  beBytes 4 kvs.length ++ kvs.flatMap wireEntry

/-- The entry `Decode` makes of a key and a value. -/
def toEntry (kv : IPKey × IPValue) : Entry where
  srcIP := ntohl kv.1.srcIP
  dstIP := ntohl kv.1.dstIP
  srcPort := kv.1.srcPort
  dstPort := kv.1.dstPort
  traffic := kv.2.packetSize

/-- The key and the value an entry was decoded from. -/
def ofEntry (e : Entry) : IPKey × IPValue :=
  (⟨htonl e.srcIP, htonl e.dstIP, e.srcPort, e.dstPort⟩, ⟨e.traffic⟩)

@[simp] theorem ofEntry_toEntry (kv : IPKey × IPValue) : ofEntry (toEntry kv) = kv := by
  obtain ⟨⟨s, d, sp, dp⟩, ⟨v⟩⟩ := kv
  simp [ofEntry, toEntry]

@[simp] theorem length_wireEntry (kv : IPKey × IPValue) : (wireEntry kv).length = 20 := by
  simp [wireEntry]

theorem length_flatMap_wireEntry (kvs : List (IPKey × IPValue)) :
    (kvs.flatMap wireEntry).length = 20 * kvs.length := by
  induction kvs with
  | nil => rfl
  | cons kv kvs ih =>
      rw [List.flatMap_cons, List.length_append, length_wireEntry, ih, List.length_cons]
      omega

@[simp] theorem length_wire (kvs : List (IPKey × IPValue)) :
    (wire kvs).length = 4 + 20 * kvs.length := by
  rw [wire, List.length_append, length_beBytes, length_flatMap_wireEntry]

/-- Twenty bytes are the bytes of exactly one entry. -/
theorem exists_wireEntry (bs : List UInt8) (h : bs.length = 20) :
    ∃ kv, wireEntry kv = bs := by
  have hcut (lo n : ℕ) (hn : lo + n ≤ 20) : ((bs.drop lo).take n).length = n := by
    rw [List.length_take, List.length_drop]
    omega
  have hbe (lo n : ℕ) (hn : lo + n ≤ 20) :
      beBytes n (beNat ((bs.drop lo).take n)) = (bs.drop lo).take n := by
    have := beBytes_beNat ((bs.drop lo).take n)
    rwa [hcut lo n hn] at this
  have hlt (lo n : ℕ) (hn : lo + n ≤ 20) : beNat ((bs.drop lo).take n) < 256 ^ n := by
    have := beNat_lt ((bs.drop lo).take n)
    rwa [hcut lo n hn] at this
  refine ⟨(⟨UInt32.ofNat (beNat ((bs.drop 0).take 4)), UInt32.ofNat (beNat ((bs.drop 4).take 4)),
    UInt16.ofNat (beNat ((bs.drop 8).take 2)), UInt16.ofNat (beNat ((bs.drop 10).take 2))⟩,
    ⟨UInt64.ofNat (beNat ((bs.drop 12).take 8))⟩), ?_⟩
  simp only [wireEntry, UInt32.toNat_ofNat_of_lt' (hlt 0 4 (by omega)),
    UInt32.toNat_ofNat_of_lt' (hlt 4 4 (by omega)),
    UInt16.toNat_ofNat_of_lt' (hlt 8 2 (by omega)),
    UInt16.toNat_ofNat_of_lt' (hlt 10 2 (by omega)),
    UInt64.toNat_ofNat_of_lt' (hlt 12 8 (by omega)), hbe 0 4 (by omega), hbe 4 4 (by omega),
    hbe 8 2 (by omega), hbe 10 2 (by omega), hbe 12 8 (by omega)]
  match bs, h with
  | [_, _, _, _, _, _, _, _, _, _, _, _, _, _, _, _, _, _, _, _], _ => rfl

/-- Bytes whose number is a multiple of twenty are the bytes of some entries. -/
theorem exists_wireEntries (n : ℕ) (bs : List UInt8) (h : bs.length = 20 * n) :
    ∃ kvs : List (IPKey × IPValue), kvs.length = n ∧ kvs.flatMap wireEntry = bs := by
  induction n generalizing bs with
  | zero =>
      have hnil : bs = [] := List.eq_nil_of_length_eq_zero (by omega)
      exact ⟨[], rfl, hnil.symm⟩
  | succ n ih =>
      obtain ⟨kv, hkv⟩ := exists_wireEntry (bs.take 20) (by rw [List.length_take]; omega)
      obtain ⟨kvs, hlen, hkvs⟩ := ih (bs.drop 20) (by rw [List.length_drop]; omega)
      refine ⟨kv :: kvs, by rw [List.length_cons, hlen], ?_⟩
      rw [List.flatMap_cons, hkv, hkvs, List.take_append_drop]

/-! ## Encode writes the layout -/

/-- The loop of `Encode` fills the zeroed rest of the buffer with the entries. -/
theorem encodeLoop_eq (values : List IPValue) (keys : List IPKey) (i : ℕ) (pre : List UInt8)
    (hlen : values.length = i + keys.length) :
    encodeLoop values keys i pre.length
        (Slice.ofList (pre ++ List.replicate (20 * keys.length) 0))
      = some (Slice.ofList (pre ++ (keys.zip (values.drop i)).flatMap wireEntry)) := by
  induction keys generalizing i pre with
  | nil => simp [encodeLoop]
  | cons key keys ih =>
      have hi : i < values.length := by rw [hlen, List.length_cons]; omega
      have hzero : List.replicate (20 * (key :: keys).length) (0 : UInt8)
          = List.replicate 4 0 ++ (List.replicate 4 0 ++ (List.replicate 2 0
            ++ (List.replicate 2 0 ++ (List.replicate 8 0
            ++ List.replicate (20 * keys.length) 0)))) := by
        simp only [List.replicate_append_replicate, List.length_cons]
        congr 1
        omega
      rw [encodeLoop, hzero]
      -- the five writes of an entry, each right after the one before
      simp only [Slice.putUint32, Slice.putUint16, Slice.putUint64, Option.bind_eq_bind]
      rw [writeBE_zeros _ _ _ rfl rfl, Option.bind_some,
        writeBE_zeros _ _ _ (by simp) (by omega), Option.bind_some,
        writeBE_zeros _ _ _ (by simp) (by omega), Option.bind_some,
        writeBE_zeros _ _ _ (by simp) (by omega), Option.bind_some,
        List.getElem?_eq_getElem hi, Option.bind_some,
        writeBE_zeros _ _ _ (by simp) (by omega), Option.bind_some]
      have hstep := ih (i + 1) (pre ++ wireEntry (key, values[i])) (by
        rw [hlen, List.length_cons]
        omega)
      have hoff : (pre ++ wireEntry (key, values[i])).length = pre.length + 20 := by
        rw [List.length_append, length_wireEntry]
      have hdrop : values.drop i = values[i] :: values.drop (i + 1) :=
        List.drop_eq_getElem_cons hi
      rw [hoff] at hstep
      simp only [wireEntry, List.append_assoc] at hstep ⊢
      rw [hstep, hdrop, List.zip_cons_cons, List.flatMap_cons]
      simp only [wireEntry, List.append_assoc]

/-- `Encode` of as many values as keys writes exactly the layout. -/
theorem encode_eq_wire (keys : List IPKey) (values : List IPValue)
    (hlen : keys.length = values.length) :
    encode keys values = some (Slice.ofList (wire (keys.zip values))) := by
  have hzero : List.replicate (4 + 20 * keys.length) (0 : UInt8)
      = [] ++ List.replicate 4 0 ++ List.replicate (20 * keys.length) 0 := by
    rw [List.nil_append, List.replicate_append_replicate]
  have hzip : (keys.zip values).length = keys.length := by
    rw [List.length_zip, hlen, min_self]
  have hcount : beBytes 4 (UInt32.ofNat keys.length).toNat = beBytes 4 keys.length := by
    rw [UInt32.toNat_ofNat']
    exact beBytes_mod 4 keys.length
  have hwrite : (Slice.ofList ([] ++ List.replicate 4 0 ++ List.replicate (20 * keys.length) 0)).writeBE
      4 0 4 (UInt32.ofNat keys.length).toNat = _ :=
    writeBE_eq [] _ _ _ rfl (by rw [List.length_replicate]) rfl
  simp only [encode, Option.bind_eq_bind, Slice.make, Slice.putUint32, hzero]
  rw [hwrite, Option.bind_some, hcount, List.nil_append]
  have hloop := encodeLoop_eq values keys 0 (beBytes 4 keys.length) (by omega)
  rw [length_beBytes, List.drop_zero] at hloop
  rw [hloop, wire, hzip]

/-- The payload of a list of keys with their values is its layout. -/
theorem encode_pairs (kvs : List (IPKey × IPValue)) :
    encode (kvs.map Prod.fst) (kvs.map Prod.snd) = some (Slice.ofList (wire kvs)) := by
  have hlen : (kvs.map Prod.fst).length = (kvs.map Prod.snd).length := by
    rw [List.length_map, List.length_map]
  have hzip : (kvs.map Prod.fst).zip (kvs.map Prod.snd) = kvs := (List.zip_of_prod rfl rfl).symm
  rw [encode_eq_wire _ _ hlen, hzip]

/-! ## Decode reads the layout -/

/-- The 32-bit offsets of an entry are those of the layout unless they wrap. -/
theorem toNat_offset {i : UInt32} {n : ℕ} (h : 4 + 20 * i.toNat + 20 < 2 ^ 32) (hn : n ≤ 20) :
    (4 + i * 20 + UInt32.ofNat n).toNat = 4 + 20 * i.toNat + n := by
  simp only [UInt32.toNat_add, UInt32.toNat_mul, UInt32.toNat_ofNat', UInt32.reduceToNat]
  omega

/-- An iteration of `Decode` reads one entry of the layout. -/
theorem decodeEntry_eq {buf : Slice UInt8} {i : UInt32} {kv : IPKey × IPValue}
    (pre post : List UInt8) (harr : buf.arr = pre ++ wireEntry kv ++ post)
    (hpre : pre.length = 4 + 20 * i.toNat) (hlt : pre.length + 20 < 2 ^ 32) :
    decodeEntry buf i = some (toEntry kv) := by
  have hlt' : 4 + 20 * i.toNat + 20 < 2 ^ 32 := by omega
  have h0 : (4 + i * 20).toNat = 4 + 20 * i.toNat := by
    have := toNat_offset hlt' (Nat.zero_le 20)
    simpa using this
  have h4 : (4 + i * 20 + 4).toNat = 4 + 20 * i.toNat + 4 :=
    toNat_offset (n := 4) hlt' (by norm_num)
  have h8 : (4 + i * 20 + 8).toNat = 4 + 20 * i.toNat + 8 :=
    toNat_offset (n := 8) hlt' (by norm_num)
  have h10 : (4 + i * 20 + 10).toNat = 4 + 20 * i.toNat + 10 :=
    toNat_offset (n := 10) hlt' (by norm_num)
  have h12 : (4 + i * 20 + 12).toNat = 4 + 20 * i.toNat + 12 :=
    toNat_offset (n := 12) hlt' (by norm_num)
  have h20 : (4 + i * 20 + 20).toNat = 4 + 20 * i.toNat + 20 :=
    toNat_offset (n := 20) hlt' (by norm_num)
  simp only [wireEntry, List.append_assoc] at harr
  -- each field is read right after the ones before it
  have hsrcIP : buf.uint32 (4 + 20 * i.toNat) (4 + 20 * i.toNat + 4) = some kv.1.srcIP :=
    uint32_beBytes pre (by simp only [List.append_assoc]; exact harr) hpre.symm rfl
  have hdstIP : buf.uint32 (4 + 20 * i.toNat + 4) (4 + 20 * i.toNat + 8) = some kv.1.dstIP :=
    uint32_beBytes (pre ++ beBytes 4 kv.1.srcIP.toNat)
      (by simp only [List.append_assoc]; exact harr) (by simp [hpre]) (by omega)
  have hsrcPort : buf.uint16 (4 + 20 * i.toNat + 8) (4 + 20 * i.toNat + 10)
      = some kv.1.srcPort :=
    uint16_beBytes (pre ++ beBytes 4 kv.1.srcIP.toNat ++ beBytes 4 kv.1.dstIP.toNat)
      (by simp only [List.append_assoc]; exact harr) (by simp [hpre]) (by omega)
  have hdstPort : buf.uint16 (4 + 20 * i.toNat + 10) (4 + 20 * i.toNat + 12)
      = some kv.1.dstPort :=
    uint16_beBytes (pre ++ beBytes 4 kv.1.srcIP.toNat ++ beBytes 4 kv.1.dstIP.toNat
        ++ beBytes 2 kv.1.srcPort.toNat)
      (by simp only [List.append_assoc]; exact harr) (by simp [hpre]) (by omega)
  have htraffic : buf.uint64 (4 + 20 * i.toNat + 12) (4 + 20 * i.toNat + 20)
      = some kv.2.packetSize :=
    uint64_beBytes (pre ++ beBytes 4 kv.1.srcIP.toNat ++ beBytes 4 kv.1.dstIP.toNat
        ++ beBytes 2 kv.1.srcPort.toNat ++ beBytes 2 kv.1.dstPort.toNat)
      (by simp only [List.append_assoc]; exact harr) (by simp [hpre]) (by omega)
  simp only [decodeEntry, h0, h4, h8, h10, h12, h20, hsrcIP, hdstIP, hsrcPort, hdstPort, htraffic,
    Option.bind_eq_bind, Option.bind_some, toEntry]

/-- The loop of `Decode` reads the entries of the layout in order. -/
theorem decodeLoop_wire {buf : Slice UInt8} (kvs : List (IPKey × IPValue)) {i : UInt32}
    (pre post : List UInt8) (harr : buf.arr = pre ++ kvs.flatMap wireEntry ++ post)
    (hpre : pre.length = 4 + 20 * i.toNat) (hlt : pre.length + 20 * kvs.length < 2 ^ 32) :
    decodeLoop buf i kvs.length = some (kvs.map toEntry) := by
  induction kvs generalizing i pre with
  | nil => rfl
  | cons kv kvs ih =>
      rw [List.length_cons] at hlt
      have hhead : decodeEntry buf i = some (toEntry kv) := by
        refine decodeEntry_eq pre (kvs.flatMap wireEntry ++ post) ?_ hpre (by omega)
        rw [harr, List.flatMap_cons]
        simp only [List.append_assoc]
      have hnext : (i + 1).toNat = i.toNat + 1 := by
        simp only [UInt32.toNat_add, UInt32.reduceToNat]
        omega
      have htail : decodeLoop buf (i + 1) kvs.length = some (kvs.map toEntry) := by
        refine ih (pre ++ wireEntry kv) ?_ ?_ ?_
        · rw [harr, List.flatMap_cons]
          simp only [List.append_assoc]
        · rw [List.length_append, length_wireEntry, hpre, hnext]
          omega
        · rw [List.length_append, length_wireEntry]
          omega
      rw [List.length_cons, decodeLoop, hhead]
      simp only [Option.bind_eq_bind, Option.bind_some, htail, List.map_cons]

/-! ## The length check -/

/-- The number of entries a buffer claims to hold. -/
def count (buf : Slice UInt8) : ℕ := beNat (buf.elems.take 4)

theorem count_lt (buf : Slice UInt8) : count buf < 2 ^ 32 := by
  have hlen : (buf.elems.take 4).length ≤ 4 := List.length_take_le 4 _
  calc count buf < 256 ^ (buf.elems.take 4).length := beNat_lt _
    _ ≤ 256 ^ 4 := Nat.pow_le_pow_right (by norm_num) hlen
    _ = 2 ^ 32 := by norm_num

/-- The bytes of a buffer of at least four bytes, cut after the count. -/
theorem arr_eq_count_append {buf : Slice UInt8} (h : 4 ≤ buf.len) :
    buf.arr = beBytes 4 (count buf) ++ buf.arr.drop 4 := by
  have hcap : buf.len ≤ buf.arr.length := buf.len_le_cap
  have htake : buf.elems.take 4 = buf.arr.take 4 := by
    rw [Slice.elems, List.take_take, Nat.min_eq_left h]
  have hlen : (buf.arr.take 4).length = 4 := by
    rw [List.length_take]
    omega
  have hbe : beBytes 4 (count buf) = buf.arr.take 4 := by
    have := beBytes_beNat (buf.arr.take 4)
    rw [hlen] at this
    rw [count, htake, this]
  rw [hbe, List.take_append_drop]

/-- `Decode` reads the count from the first four bytes. -/
theorem uint32_count {buf : Slice UInt8} (h : 4 ≤ buf.len) :
    buf.uint32 0 4 = some (UInt32.ofNat (count buf)) := by
  have harr : buf.arr = [] ++ beBytes 4 (count buf) ++ buf.arr.drop 4 :=
    arr_eq_count_append h
  have hread : buf.readBE 4 0 4 = some (beNat (beBytes 4 (count buf))) :=
    readBE_eq harr rfl (length_beBytes 4 _).symm rfl
  have hcount : count buf % 256 ^ 4 = count buf := Nat.mod_eq_of_lt (count_lt buf)
  rw [Slice.uint32, hread, beNat_beBytes, hcount, Option.map_some]

theorem decode_of_len_lt {buf : Slice UInt8} (h : buf.len < 4) :
    decode buf = some (.error "unexpected length of buffer") := if_pos h

/-- `Decode` compares the two lengths modulo `2 ^ 32`. -/
theorem decode_eq {buf : Slice UInt8} (h : 4 ≤ buf.len) :
    decode buf
      = if buf.len % 2 ^ 32 = (4 + 20 * count buf) % 2 ^ 32 then
          (decodeLoop buf 0 (count buf)).map Except.ok
        else some (.error "unexpected length of buffer for number of entries") := by
  have hcount : (UInt32.ofNat (count buf)).toNat = count buf :=
    UInt32.toNat_ofNat_of_lt' (count_lt buf)
  have hcheck : UInt32.ofNat buf.len = 4 + 20 * UInt32.ofNat (count buf)
      ↔ buf.len % 2 ^ 32 = (4 + 20 * count buf) % 2 ^ 32 := by
    rw [← UInt32.toNat_inj, UInt32.toNat_add, UInt32.toNat_mul, hcount, UInt32.toNat_ofNat']
    simp only [UInt32.reduceToNat]
    omega
  rw [decode, if_neg (by omega), uint32_count h]
  simp only [Option.bind_eq_bind, Option.bind_some, ne_eq, hcount, hcheck, ite_not]
  split_ifs
  · cases decodeLoop buf 0 (count buf) <;> rfl
  · rfl

/-- Past the 32-bit limit the port slice of some iteration is bounded above by
a wrapped offset, and the loop of `Decode` panics. -/
theorem decodeEntry_eq_none (buf : Slice UInt8) {i : UInt32} (hi : i.toNat = 214748364) :
    decodeEntry buf i = none := by
  have h12 : (4 + i * 20 + 12).toNat = 0 := by
    simp only [UInt32.toNat_add, UInt32.toNat_mul, UInt32.reduceToNat]
    omega
  have h10 : (4 + i * 20 + 10).toNat = 4294967294 := by
    simp only [UInt32.toNat_add, UInt32.toNat_mul, UInt32.reduceToNat]
    omega
  have hport : buf.uint16 (4 + i * 20 + 10).toNat (4 + i * 20 + 12).toNat = none := by
    rw [Slice.uint16, readBE_eq_none_of_lt (by omega), Option.map_none]
  simp only [decodeEntry, hport, Option.bind_eq_bind, Option.bind_none, Option.bind_fun_none]

/-- A panic in one iteration is a panic of the loop. -/
theorem decodeLoop_eq_none {buf : Slice UInt8} (n : ℕ) {i : UInt32} (j : ℕ) (hj : j < n)
    (h : decodeEntry buf (i + UInt32.ofNat j) = none) :
    decodeLoop buf i n = none := by
  induction n generalizing i j with
  | zero => omega
  | succ n ih =>
      rw [decodeLoop]
      cases j with
      | zero =>
          have hhead : decodeEntry buf i = none := by simpa using h
          rw [hhead]
          rfl
      | succ j =>
          have hnext : i + UInt32.ofNat (j + 1) = i + 1 + UInt32.ofNat j := by
            rw [UInt32.ofNat_add, UInt32.add_assoc, UInt32.add_comm (UInt32.ofNat j)]
            rfl
          have htail := ih j (by omega) (hnext ▸ h)
          simp only [htail, Option.bind_eq_bind, Option.bind_none, Option.bind_fun_none]

/-- A count past the 32-bit limit makes the loop of `Decode` panic. -/
theorem decodeLoop_eq_none_of_count {buf : Slice UInt8} (h : 2 ^ 32 ≤ 4 + 20 * count buf) :
    decodeLoop buf 0 (count buf) = none := by
  apply decodeLoop_eq_none (count buf) 214748364 (by omega)
  apply decodeEntry_eq_none
  rw [UInt32.zero_add]
  rfl

/-- Below the 32-bit limit, an accepted buffer decodes to the entries of its
first `4 + 20 * count` bytes. -/
theorem exists_decode {buf : Slice UInt8} (h : 4 ≤ buf.len) (hlt : 4 + 20 * count buf < 2 ^ 32)
    (hcheck : buf.len % 2 ^ 32 = (4 + 20 * count buf) % 2 ^ 32) :
    ∃ kvs, kvs.length = count buf ∧ wire kvs = buf.arr.take (4 + 20 * count buf)
      ∧ decode buf = some (.ok (kvs.map toEntry)) := by
  have hcap : buf.len ≤ buf.arr.length := buf.len_le_cap
  obtain ⟨kvs, hlen, hkvs⟩ := exists_wireEntries (count buf)
    ((buf.arr.drop 4).take (20 * count buf)) (by
      rw [List.length_take, List.length_drop]
      omega)
  have harr : buf.arr = beBytes 4 (count buf) ++ kvs.flatMap wireEntry
      ++ (buf.arr.drop 4).drop (20 * count buf) := by
    rw [hkvs, List.append_assoc, List.take_append_drop]
    exact arr_eq_count_append h
  have hloop : decodeLoop buf 0 kvs.length = some (kvs.map toEntry) := by
    refine decodeLoop_wire kvs (beBytes 4 (count buf)) _ harr ?_ ?_
    · rw [length_beBytes]
      rfl
    · rw [length_beBytes, hlen]
      exact hlt
  refine ⟨kvs, hlen, ?_, ?_⟩
  · have hwire : (wire kvs).length = 4 + 20 * count buf := by rw [length_wire, hlen]
    rw [harr, ← hwire, wire, hlen, List.take_left]
  · rw [decode_eq h, if_pos hcheck, ← hlen, hloop, Option.map_some]

/-! ## Round trips -/

/-- Round trip: below the 32-bit limit, the payload of as many
values as keys decodes to one entry for each key and value, in order. -/
theorem decode_wire (kvs : List (IPKey × IPValue)) (hlt : 4 + 20 * kvs.length < 2 ^ 32) :
    decode (Slice.ofList (wire kvs)) = some (.ok (kvs.map toEntry)) := by
  have hcount : count (Slice.ofList (wire kvs)) = kvs.length := by
    have hmod : kvs.length % 256 ^ 4 = kvs.length := Nat.mod_eq_of_lt (by omega)
    have htake : (wire kvs).take 4 = beBytes 4 kvs.length := by
      rw [wire, List.take_left' (length_beBytes 4 _)]
    rw [count, elems_ofList, htake, beNat_beBytes, hmod]
  have hlen : 4 ≤ (Slice.ofList (wire kvs)).len := by
    rw [len_ofList, length_wire]
    omega
  have hloop : decodeLoop (Slice.ofList (wire kvs)) 0 kvs.length = some (kvs.map toEntry) := by
    refine decodeLoop_wire kvs (beBytes 4 kvs.length) [] ?_ ?_ ?_
    · rw [arr_ofList, List.append_nil, wire]
    · rw [length_beBytes]
      rfl
    · rw [length_beBytes]
      exact hlt
  rw [decode_eq hlen, hcount, len_ofList, length_wire, if_pos rfl, hloop, Option.map_some]

/-- Encoding and then decoding succeeds and gives one entry for each key, with
its addresses converted to host order; addresses that were in network order
come back as they were before the conversion. -/
theorem decode_encode (keys : List IPKey) (values : List IPValue)
    (hlen : keys.length = values.length) (hlt : 4 + 20 * keys.length < 2 ^ 32) :
    ∃ buf entries, encode keys values = some buf ∧ decode buf = some (.ok entries)
      ∧ entries.length = keys.length
      ∧ (∀ (i : ℕ) (key : IPKey) (value : IPValue), keys[i]? = some key → values[i]? = some value →
          entries[i]? = some ⟨ntohl key.srcIP, ntohl key.dstIP, key.srcPort, key.dstPort,
            value.packetSize⟩)
      ∧ (∀ (i : ℕ) (src dst : UInt32) (sp dp : UInt16) (value : IPValue),
          keys[i]? = some ⟨htonl src, htonl dst, sp, dp⟩ → values[i]? = some value →
          entries[i]? = some ⟨src, dst, sp, dp, value.packetSize⟩) := by
  have hzip : (keys.zip values).length = keys.length := by
    rw [List.length_zip, hlen, min_self]
  have hentry : ∀ (i : ℕ) (key : IPKey) (value : IPValue), keys[i]? = some key →
      values[i]? = some value →
      ((keys.zip values).map toEntry)[i]? = some ⟨ntohl key.srcIP, ntohl key.dstIP, key.srcPort,
        key.dstPort, value.packetSize⟩ := by
    intro i key value hkey hvalue
    have hpair : (keys.zip values)[i]? = some (key, value) :=
      List.getElem?_zip_eq_some.2 ⟨hkey, hvalue⟩
    rw [List.getElem?_map, hpair]
    rfl
  refine ⟨_, _, encode_eq_wire keys values hlen, decode_wire _ (by rw [hzip]; exact hlt),
    by rw [List.length_map, hzip], hentry, ?_⟩
  intro i src dst sp dp value hkey hvalue
  rw [hentry i _ value hkey hvalue]
  simp only [ntohl_htonl]

/-- The encoder and the decoder on the two entries of the repository's test. -/
theorem decode_encode_test :
    ∃ buf entries,
      encode [⟨htonl 1, htonl 2, 80, 443⟩, ⟨htonl 4, htonl 5, 8080, 8443⟩] [⟨3⟩, ⟨6⟩] = some buf
        ∧ decode buf = some (.ok entries) ∧ entries[0]? = some ⟨1, 2, 80, 443, 3⟩
        ∧ entries[1]? = some ⟨4, 5, 8080, 8443, 6⟩ := by
  obtain ⟨buf, entries, henc, hdec, -, -, hback⟩ :=
    decode_encode [⟨htonl 1, htonl 2, 80, 443⟩, ⟨htonl 4, htonl 5, 8080, 8443⟩] [⟨3⟩, ⟨6⟩]
      rfl (by decide)
  exact ⟨buf, entries, henc, hdec, hback 0 1 2 80 443 ⟨3⟩ rfl rfl,
    hback 1 4 5 8080 8443 ⟨6⟩ rfl rfl⟩

/-! ## What Decode accepts -/

/-- A buffer holds an encoded payload. -/
def WellFormed (buf : Slice UInt8) : Prop :=
  ∃ (keys : List IPKey) (values : List IPValue), keys.length = values.length
    ∧ keys.length < 2 ^ 32 ∧ (encode keys values).map Slice.elems = some buf.elems

/-- The encoded payloads are the buffers whose length, as a natural number, is
the one their count asks for. -/
theorem wellFormed_iff (buf : Slice UInt8) :
    WellFormed buf ↔ 4 ≤ buf.len ∧ buf.len = 4 + 20 * count buf := by
  constructor
  · rintro ⟨keys, values, hlen, hlt, henc⟩
    have hzip : (keys.zip values).length = keys.length := by
      rw [List.length_zip, hlen, min_self]
    rw [encode_eq_wire keys values hlen, Option.map_some, elems_ofList,
      Option.some.injEq] at henc
    have hbuf : buf.len = 4 + 20 * keys.length := by
      rw [← length_elems, ← henc, length_wire, hzip]
    have hmod : keys.length % 256 ^ 4 = keys.length := Nat.mod_eq_of_lt (by omega)
    have hcount : count buf = keys.length := by
      rw [count, ← henc, wire, List.take_left' (length_beBytes 4 _), beNat_beBytes, hzip, hmod]
    exact ⟨by omega, by rw [hcount, hbuf]⟩
  · rintro ⟨h4, hlen⟩
    obtain ⟨kvs, hkvs, hflat⟩ := exists_wireEntries (count buf) (buf.elems.drop 4) (by
      rw [List.length_drop, length_elems]
      omega)
    have hbytes : wire kvs = buf.elems := by
      have htake : beBytes 4 (count buf) = buf.elems.take 4 := by
        have hlen4 : (buf.elems.take 4).length = 4 := by
          rw [List.length_take, length_elems]
          omega
        have := beBytes_beNat (buf.elems.take 4)
        rwa [hlen4] at this
      rw [wire, hkvs, htake, hflat, List.take_append_drop]
    refine ⟨kvs.map Prod.fst, kvs.map Prod.snd, by simp, ?_, ?_⟩
    · rw [List.length_map, hkvs]
      exact count_lt buf
    · rw [encode_pairs, Option.map_some, elems_ofList, hbytes]

/-- `Decode` accepts exactly the wire format on a buffer: it does not panic, it
succeeds only on encoded payloads, and its entries encode to the buffer again. -/
structure DecodesExactly (buf : Slice UInt8) : Prop where
  no_panic : decode buf ≠ none
  accepts : (∃ entries, decode buf = some (.ok entries)) ↔ WellFormed buf
  reencode : ∀ entries, decode buf = some (.ok entries) →
    (encode (entries.map fun e => (ofEntry e).1) (entries.map fun e => (ofEntry e).2)).map
      Slice.elems = some buf.elems

/-- The 32-bit length check of `Decode` decides as the comparison of the two
lengths as natural numbers would. -/
def LengthsFit (buf : Slice UInt8) : Prop :=
  buf.len < 4 ∨ buf.len % 2 ^ 32 ≠ (4 + 20 * count buf) % 2 ^ 32
    ∨ (buf.len < 2 ^ 32 ∧ 4 + 20 * count buf < 2 ^ 32)

/-- A rejected buffer that is not an encoded payload is handled as it should be. -/
theorem decodesExactly_of_error {buf : Slice UInt8} {msg : String}
    (herr : decode buf = some (.error msg)) (hbad : ¬ WellFormed buf) :
    DecodesExactly buf where
  no_panic := by rw [herr]; exact Option.some_ne_none _
  accepts := by
    constructor
    · rintro ⟨entries, hok⟩
      rw [herr] at hok
      cases hok
    · exact fun h => absurd h hbad
  reencode := by
    intro entries hok
    rw [herr] at hok
    cases hok

/-- A buffer that decodes to the entries it is the encoding of is handled as it
should be. -/
theorem decodesExactly_of_ok {buf : Slice UInt8} {kvs : List (IPKey × IPValue)}
    (hdec : decode buf = some (.ok (kvs.map toEntry))) (hwire : wire kvs = buf.elems)
    (hwf : WellFormed buf) : DecodesExactly buf where
  no_panic := by rw [hdec]; exact Option.some_ne_none _
  accepts := ⟨fun _ => hwf, fun _ => ⟨_, hdec⟩⟩
  reencode := by
    intro entries hok
    rw [hdec, Option.some.injEq, Except.ok.injEq] at hok
    subst hok
    have hkeys : ((kvs.map toEntry).map fun e => (ofEntry e).1) = kvs.map Prod.fst := by
      rw [List.map_map]
      apply List.map_congr_left
      intro kv _
      rw [Function.comp_apply, ofEntry_toEntry]
    have hvalues : ((kvs.map toEntry).map fun e => (ofEntry e).2) = kvs.map Prod.snd := by
      rw [List.map_map]
      apply List.map_congr_left
      intro kv _
      rw [Function.comp_apply, ofEntry_toEntry]
    rw [hkeys, hvalues, encode_pairs, Option.map_some, elems_ofList, hwire]

/-- Main result: the encoded payloads are the buffers of the
right length, and `Decode` accepts exactly these if and only if its 32-bit
length check does not wrap around. -/
theorem decodesExactly_iff (buf : Slice UInt8) :
    (WellFormed buf ↔ 4 ≤ buf.len ∧ buf.len = 4 + 20 * count buf)
      ∧ (DecodesExactly buf ↔ LengthsFit buf) := by
  refine ⟨wellFormed_iff buf, ?_⟩
  by_cases h4 : buf.len < 4
  · have hbad : ¬ WellFormed buf := by
      rw [wellFormed_iff]
      omega
    exact ⟨fun _ => Or.inl h4, fun _ => decodesExactly_of_error (decode_of_len_lt h4) hbad⟩
  · have hge : 4 ≤ buf.len := by omega
    by_cases hcheck : buf.len % 2 ^ 32 = (4 + 20 * count buf) % 2 ^ 32
    · by_cases hlt : 4 + 20 * count buf < 2 ^ 32
      · -- the loop reads every entry; only bytes past the last one can be left over
        obtain ⟨kvs, hlen, hwire, hdec⟩ := exists_decode hge hlt hcheck
        constructor
        · intro hexact
          have hwf := hexact.accepts.1 ⟨_, hdec⟩
          rw [wellFormed_iff] at hwf
          exact Or.inr (Or.inr ⟨by omega, hlt⟩)
        · intro hfit
          have hbuf : buf.len = 4 + 20 * count buf := by
            rcases hfit with h | h | h
            · omega
            · exact absurd hcheck h
            · omega
          have hbytes : wire kvs = buf.elems := by rw [hwire, ← hbuf, Slice.elems]
          exact decodesExactly_of_ok hdec hbytes ((wellFormed_iff buf).2 ⟨hge, hbuf⟩)
      · -- past the limit the loop panics, so the buffer is not handled as it should be
        constructor
        · intro hexact
          have hpanic : decode buf = none := by
            rw [decode_eq hge, if_pos hcheck, decodeLoop_eq_none_of_count (by omega),
              Option.map_none]
          exact absurd hpanic hexact.no_panic
        · rintro (h | h | h)
          · omega
          · exact absurd hcheck h
          · omega
    · have hbad : ¬ WellFormed buf := by
        rw [wellFormed_iff]
        rintro ⟨-, hlen⟩
        exact hcheck (by rw [← hlen])
      have herr : decode buf
          = some (.error "unexpected length of buffer for number of entries") := by
        rw [decode_eq hge, if_neg hcheck]
      exact ⟨fun _ => Or.inr (Or.inl hcheck), fun _ => decodesExactly_of_error herr hbad⟩

/-- Four bytes that claim `2 ^ 30` entries pass the length check, since
`20 * 2 ^ 30` is a multiple of `2 ^ 32`, and `Decode` reads past the buffer. -/
theorem not_decodesExactly_wrapped :
    ¬ DecodesExactly (Slice.ofList [0x40, 0, 0, 0]) := by
  intro hexact
  have hcount : count (Slice.ofList [0x40, 0, 0, 0]) = 2 ^ 30 := by decide
  have hpanic : decode (Slice.ofList [0x40, 0, 0, 0]) = none := by
    rw [decode_eq (by decide), hcount, if_pos (by decide)]
    rw [← hcount, decodeLoop_eq_none_of_count (by rw [hcount]; norm_num), Option.map_none]
  exact hexact.no_panic hpanic

end Payload

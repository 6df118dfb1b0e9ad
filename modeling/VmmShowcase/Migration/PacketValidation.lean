import VmmShowcase.Migration.StateSerializer

/-! # What the receiver's checks are worth

`Deserialize` checks the version and the checksum and nothing else. The checksum finds every change
inside two adjacent bytes. It does not find a payload whose length fields point outside it, because
whoever forges the payload can compute its checksum too: behind the two checks the decoder reads
where the length fields send it, and it leaves out the bytes behind the memory. -/

namespace VmmShowcase

open ByteVector (slice)

namespace StateSerializer

/-! ## Corruption -/

/-- The multiplier of the checksum is odd, hence invertible. -/
theorem checksumPrime_mul_inverse : checksumPrime * 899433627 = 1#32 := by decide

/-- The multiples of the multiplier by a byte value change the bytes above the low one. -/
theorem checksumPrime_spreads : XorMulHash.Spreads checksumPrime := by
  intro d hpos hlt
  have hprime : checksumPrime.toNat = 16777619 := by decide
  have hmod : d * 16777619 < 2 ^ 32 := by omega
  rw [hprime, Nat.mod_eq_of_lt hmod]
  omega

/-- **Corruption detection.** Payloads that differ inside two adjacent bytes have different
checksums, so a packet of `Serialize` corrupted there is refused and the target stays as it was. -/
theorem corruption_detected {p q : List Byte} {i : Nat} (h : XorMulHash.DiffersInWindow p q i) :
    computeChecksum p ≠ computeChecksum q
      ∧ ∀ snapshot, (serialize snapshot).payload = p → ∀ target error,
        deserialize { serialize snapshot with payload := q } target error
          = some (false, target, "migration checksum mismatch") := by
  have hne : computeChecksum p ≠ computeChecksum q :=
    XorMulHash.hash_ne_of_differsInWindow checksumPrime_mul_inverse checksumPrime_spreads
      (by decide) h
  refine ⟨hne, ?_⟩
  rintro snapshot rfl target error
  -- the corrupted packet, which still has the version and the checksum `Serialize` gave it
  obtain ⟨packet, hpacket⟩ : ∃ packet, packet = { serialize snapshot with payload := q } := ⟨_, rfl⟩
  rw [← hpacket]
  refine deserialize_of_checksum (by rw [hpacket, serialize_version]) ?_ target error
  rwa [hpacket, serialize_checksum, ← serialize_payload]

/-- The theorem at a serialized snapshot with a changed byte in its name. -/
theorem corruption_detected_in_name :
    let p := (serialize sampleSnapshot).payload
    let q := p.set 5 0x6e
    computeChecksum p ≠ computeChecksum q
      ∧ ∀ snapshot, (serialize snapshot).payload = p → ∀ target error,
        deserialize { serialize snapshot with payload := q } target error
          = some (false, target, "migration checksum mismatch") := by
  refine corruption_detected (i := 5) ⟨?_, ?_, ?_⟩
  · rw [List.length_set]
  · intro heq
    have hbyte := congrArg (fun bs : List Byte => bs[5]?) heq
    revert hbyte
    decide
  · intro j hj _
    rw [List.getElem?_set_ne (Ne.symm hj)]

/-! ## Lengths that do not fit -/

/-- The length of the name, as a payload gives it. -/
def nameLength (payload : List Byte) : Nat :=
  (LittleEndian.toBitVec 32 (slice payload 0 4) : Word).toNat

/-- The size of the memory, as a payload gives it behind the name and the 144 bytes of the
processor. -/
def memorySize (payload : List Byte) : Nat :=
  (LittleEndian.toBitVec 32 (slice payload (4 + nameLength payload + 144) 4) : Word).toNat

/-- The payload has all the bytes its length fields announce. -/
structure LengthsFit (payload : List Byte) : Prop where
  nameLength_fits : 4 ≤ payload.length
  memorySize_fits : 4 + nameLength payload + 144 + 4 ≤ payload.length
  memory_fits : 4 + nameLength payload + 144 + 4 + memorySize payload ≤ payload.length

/-- A processor takes 144 bytes. -/
theorem sized_readCpu : Reader.Sized readCpu 144 := by
  have hread32 : Reader.Sized read32 4 := Reader.sized_bitVec 32 4
  have hread64 : Reader.Sized read64 8 := Reader.sized_bitVec 64 8
  exact hread64.bind fun _ => hread32.bind fun _ => hread32.bind fun _ =>
    (hread32.array 32).bind fun _ => Reader.sized_pure _

/-- **The decoder stays inside the payload exactly where the lengths fit.** -/
theorem readSnapshot_isSome_iff (target : VmSnapshot) (payload : List Byte) :
    (readSnapshot target payload 0).isSome ↔ LengthsFit payload := by
  have hread32 : Reader.Sized read32 4 := Reader.sized_bitVec 32 4
  -- one conjunct for each read, in the order of the reads
  have hreads : (readSnapshot target payload 0).isSome
      ↔ 0 + 4 ≤ payload.length ∧ 4 + nameLength payload ≤ payload.length
        ∧ 4 + nameLength payload + 144 ≤ payload.length
        ∧ 4 + nameLength payload + 144 + 4 ≤ payload.length
        ∧ 4 + nameLength payload + 144 + 4 + memorySize payload ≤ payload.length ∧ True := by
    unfold readSnapshot
    refine hread32.bind_isSome_iff (Nat.zero_le _) fun hfit nameLen hnameLen => ?_
    obtain rfl := Reader.eq_of_bitVec hnameLen
    refine (Reader.sized_bytes (nameLength payload)).bind_isSome_iff hfit fun hfit vmName _ => ?_
    refine sized_readCpu.bind_isSome_iff hfit fun hfit cpu _ => ?_
    refine hread32.bind_isSome_iff hfit fun hfit memSize hmemSize => ?_
    obtain rfl := Reader.eq_of_bitVec hmemSize
    refine (Reader.sized_bytes (memorySize payload)).bind_isSome_iff hfit fun _ memoryBytes _ => ?_
    exact iff_of_true rfl trivial
  rw [hreads]
  constructor
  · rintro ⟨hname, -, -, hcpu, hmemory, -⟩
    exact ⟨hname, hcpu, hmemory⟩
  · rintro ⟨hname, hcpu, hmemory⟩
    exact ⟨hname, by omega, by omega, hcpu, hmemory, trivial⟩

/-- What a safe decoder does with a packet, for every target: it never reads outside the payload,
and where the lengths do not fit it returns `false` and leaves the target. -/
def DecodesSafely (packet : MigrationPacket) : Prop :=
  ∀ target error, ∃ accepted target' error',
    deserialize packet target error = some (accepted, target', error')
      ∧ (¬ LengthsFit packet.payload → accepted = false ∧ target' = target)

/-- **Bounds safety of the decoder.** `Deserialize` decodes a packet safely exactly when the packet
is refused for its version or checksum, or its lengths fit its payload. -/
theorem decodesSafely_iff (packet : MigrationPacket) :
    DecodesSafely packet
      ↔ packet.version ≠ 1 ∨ packet.checksum ≠ computeChecksum packet.payload
        ∨ LengthsFit packet.payload := by
  by_cases hversion : packet.version = 1
  · by_cases hchecksum : packet.checksum = computeChecksum packet.payload
    · -- both checks pass, and only the lengths decide
      constructor
      · intro hsafe
        obtain ⟨accepted, target', error', heq, -⟩ := hsafe {} ""
        rw [deserialize_of_checked hversion hchecksum, Option.map_eq_some_iff] at heq
        obtain ⟨p, hp, -⟩ := heq
        exact .inr (.inr ((readSnapshot_isSome_iff {} packet.payload).mp (by rw [hp]; rfl)))
      · rintro (hne | hne | hfit)
        · exact absurd hversion hne
        · exact absurd hchecksum hne
        · intro target error
          obtain ⟨p, hp⟩ := Option.isSome_iff_exists.mp
            ((readSnapshot_isSome_iff target packet.payload).mpr hfit)
          refine ⟨true, p.1, error, ?_, fun hnot => absurd hfit hnot⟩
          rw [deserialize_of_checked hversion hchecksum, hp, Option.map_some]
    · refine iff_of_true ?_ (.inr (.inl hchecksum))
      intro target error
      exact ⟨_, _, _, deserialize_of_checksum hversion hchecksum target error, fun _ => ⟨rfl, rfl⟩⟩
  · refine iff_of_true ?_ (.inl hversion)
    intro target error
    exact ⟨_, _, _, deserialize_of_version hversion target error, fun _ => ⟨rfl, rfl⟩⟩

/-- A forged packet: right version, right checksum, and a name length of `2 ^ 32 - 1` with no byte
behind it. -/
def forgedPacket : MigrationPacket where
  checksum := computeChecksum [0xff, 0xff, 0xff, 0xff]
  payload := [0xff, 0xff, 0xff, 0xff]

/-- The forged packet makes the decoder read outside the payload. -/
theorem forgedPacket_not_decodesSafely : ¬ DecodesSafely forgedPacket := by
  intro hsafe
  obtain ⟨accepted, target', error', heq, -⟩ := hsafe {} ""
  rw [deserialize_of_checked (by rfl) (by rw [forgedPacket]), Option.map_eq_some_iff] at heq
  obtain ⟨p, hp, -⟩ := heq
  have hfit := (readSnapshot_isSome_iff {} forgedPacket.payload).mp (by rw [hp]; rfl)
  exact absurd hfit.memorySize_fits (by decide)

/-! ## Bytes behind the memory -/

/-- Stored 32-bit integers are taken. -/
theorem takes_read32 : Reader.Takes read32 append32 := Reader.takes_bitVec (by norm_num)

/-- Stored 64-bit integers are taken. -/
theorem takes_read64 : Reader.Takes read64 append64 := Reader.takes_bitVec (by norm_num)

/-- Stored processors are taken. -/
theorem takes_readCpu : Reader.Takes readCpu serializeCpu := by
  intro v offset cpu offset' h
  unfold readCpu at h
  obtain ⟨pc, o₁, hpc, h⟩ := Reader.bind_eq_some_iff.mp h
  obtain ⟨hi, o₂, hhi, h⟩ := Reader.bind_eq_some_iff.mp h
  obtain ⟨lo, o₃, hlo, h⟩ := Reader.bind_eq_some_iff.mp h
  obtain ⟨regs, o₄, hregs, h⟩ := Reader.bind_eq_some_iff.mp h
  cases h
  rw [takes_read64 _ _ _ _ hpc, takes_read32 _ _ _ _ hhi, takes_read32 _ _ _ _ hlo,
    takes_read32.array 32 _ _ _ _ hregs, serializeCpu]
  simp only [List.append_assoc]

/-- A length field is the encoding of the number it was read as. -/
theorem append32_of_length {n : Nat} {length : Word} (h : n = length.toNat) :
    append32 (BitVec.ofNat 32 n) = append32 length := by
  rw [h, BitVec.ofNat_toNat, BitVec.setWidth_eq]

/-- **What the decoder reads is what the encoder writes.** A payload that is read begins with the
payload of the snapshot it is read as, whose name and memory fit the length fields. -/
theorem payload_of_readSnapshot {target t : VmSnapshot} {payload : List Byte} {offset : Nat}
    (h : readSnapshot target payload 0 = some (t, offset)) :
    payload = serializePayload t ++ payload.drop offset
      ∧ t.vmName.length < 2 ^ 32 ∧ t.memoryBytes.length < 2 ^ 32 := by
  unfold readSnapshot at h
  obtain ⟨nameLen, o₁, hnameLen, h⟩ := Reader.bind_eq_some_iff.mp h
  obtain ⟨vmName, o₂, hname, h⟩ := Reader.bind_eq_some_iff.mp h
  obtain ⟨cpu, o₃, hcpu, h⟩ := Reader.bind_eq_some_iff.mp h
  obtain ⟨memSize, o₄, hmemSize, h⟩ := Reader.bind_eq_some_iff.mp h
  obtain ⟨memoryBytes, o₅, hmem, h⟩ := Reader.bind_eq_some_iff.mp h
  cases h
  have hnameLength := Reader.length_of_bytes hname
  have hmemLength := Reader.length_of_bytes hmem
  refine ⟨?_, ?_, ?_⟩
  · have hpayload : payload = append32 nameLen ++ payload.drop o₁ :=
      takes_read32 payload 0 nameLen o₁ hnameLen
    rw [serializePayload, append32_of_length hnameLength, append32_of_length hmemLength]
    simp only [List.append_assoc]
    -- one field after the other, up to the bytes nobody reads
    calc payload = append32 nameLen ++ payload.drop o₁ := hpayload
      _ = append32 nameLen ++ (vmName ++ payload.drop o₂) := by
          rw [Reader.takes_bytes _ _ _ _ _ hname, id]
      _ = append32 nameLen ++ (vmName ++ (serializeCpu cpu ++ payload.drop o₃)) := by
          rw [takes_readCpu _ _ _ _ hcpu]
      _ = append32 nameLen ++ (vmName ++ (serializeCpu cpu
            ++ (append32 memSize ++ payload.drop o₄))) := by
          rw [takes_read32 _ _ _ _ hmemSize]
      _ = append32 nameLen ++ (vmName ++ (serializeCpu cpu
            ++ (append32 memSize ++ (memoryBytes ++ payload.drop offset)))) := by
          rw [Reader.takes_bytes _ _ _ _ _ hmem, id]
  · exact hnameLength ▸ nameLen.isLt
  · exact hmemLength ▸ memSize.isLt

/-- A stored processor takes 144 bytes. -/
theorem length_serializeCpu (cpu : CpuState) : (serializeCpu cpu).length = 144 := by
  have hword : ∀ reg ∈ List.ofFn cpu.regs, (append32 reg).length = 4 :=
    fun reg _ => LittleEndian.length_ofBitVec 4 reg
  have hregs : ((List.ofFn cpu.regs).flatMap append32).length = 32 * 4 := by
    rw [List.length_flatMap, List.map_congr_left hword, List.map_const', List.sum_replicate_nat,
      List.length_ofFn]
  rw [serializeCpu, List.length_append, hregs, List.length_append, List.length_append, append64,
    append32, append32, LittleEndian.length_ofBitVec, LittleEndian.length_ofBitVec,
    LittleEndian.length_ofBitVec]

/-- The length fields of a payload that begins as the encoder's, and the bytes the encoder wrote. -/
theorem lengths_serializePayload {t : VmSnapshot} (hname : t.vmName.length < 2 ^ 32)
    (hmem : t.memoryBytes.length < 2 ^ 32) (rest : List Byte) :
    nameLength (serializePayload t ++ rest) = t.vmName.length
      ∧ memorySize (serializePayload t ++ rest) = t.memoryBytes.length
      ∧ (serializePayload t).length = 4 + t.vmName.length + 144 + 4 + t.memoryBytes.length := by
  have hlen : ∀ value : Word, (append32 value).length = 4 := LittleEndian.length_ofBitVec 4
  have hfield : ∀ (pre post : List Byte) (n : Nat), n < 2 ^ 32 →
      (LittleEndian.toBitVec 32 (slice (pre ++ append32 (BitVec.ofNat 32 n) ++ post)
        pre.length 4) : Word).toNat = n := by
    intro pre post n hn
    have hslice := ByteVector.slice_append pre (append32 (BitVec.ofNat 32 n)) post
    rw [hlen] at hslice
    rw [hslice, append32, LittleEndian.toBitVec_ofBitVec (by norm_num), BitVec.toNat_ofNat,
      Nat.mod_eq_of_lt hn]
  have hnameLength : nameLength (serializePayload t ++ rest) = t.vmName.length := by
    have h := hfield [] (t.vmName ++ serializeCpu t.cpu
      ++ append32 (BitVec.ofNat 32 t.memoryBytes.length) ++ t.memoryBytes ++ rest) _ hname
    rw [nameLength, serializePayload]
    simp only [List.append_assoc, List.nil_append, List.length_nil] at h ⊢
    exact h
  refine ⟨hnameLength, ?_, ?_⟩
  · have h := hfield (append32 (BitVec.ofNat 32 t.vmName.length) ++ t.vmName ++ serializeCpu t.cpu)
      (t.memoryBytes ++ rest) _ hmem
    rw [memorySize, hnameLength, serializePayload]
    simp only [List.append_assoc, List.length_append, hlen, length_serializeCpu] at h ⊢
    rw [Nat.add_assoc 4]
    exact h
  · simp only [serializePayload, List.length_append, hlen, length_serializeCpu]

/-- **When decoding is canonical.** The packet that an accepted one is decoded to encodes to the
accepted packet again exactly if its payload ends where the memory does. -/
theorem serialize_eq_packet_iff {packet : MigrationPacket} {target t : VmSnapshot}
    {error error' : String} (h : deserialize packet target error = some (true, t, error')) :
    serialize t = packet ↔ packet.payload.length
      = 4 + nameLength packet.payload + 144 + 4 + memorySize packet.payload := by
  by_cases hversion : packet.version = 1
  case neg =>
    rw [deserialize_of_version hversion] at h
    cases h
  by_cases hchecksum : packet.checksum = computeChecksum packet.payload
  case neg =>
    rw [deserialize_of_checksum hversion hchecksum] at h
    cases h
  rw [deserialize_of_checked hversion hchecksum, Option.map_eq_some_iff] at h
  obtain ⟨⟨u, offset⟩, hread, heq⟩ := h
  rw [Prod.mk.injEq, Prod.mk.injEq] at heq
  obtain ⟨-, rfl, -⟩ := heq
  obtain ⟨hpayload, hname, hmem⟩ := payload_of_readSnapshot hread
  generalize packet.payload.drop offset = rest at hpayload
  obtain ⟨hnameLength, hmemorySize, hlength⟩ := lengths_serializePayload hname hmem rest
  rw [← hpayload] at hnameLength hmemorySize
  rw [hnameLength, hmemorySize]
  constructor
  · intro hserialize
    rw [← hserialize, serialize_payload, hlength]
  · intro hends
    have hrest : rest = [] := by
      rw [hpayload, List.length_append, hlength] at hends
      exact List.eq_nil_of_length_eq_zero (by omega)
    rw [hrest, List.append_nil] at hpayload
    obtain ⟨version, checksum, payload⟩ := packet
    obtain rfl : version = 1 := hversion
    obtain rfl : payload = serializePayload u := hpayload
    obtain rfl : checksum = computeChecksum (serializePayload u) := hchecksum
    rfl

/-- The theorem at a packet of the encoder. -/
theorem serialize_eq_packet_iff_sampleSnapshot :
    serialize sampleSnapshot = serialize sampleSnapshot
      ↔ (serialize sampleSnapshot).payload.length
        = 4 + nameLength (serialize sampleSnapshot).payload + 144 + 4
          + memorySize (serialize sampleSnapshot).payload :=
  serialize_eq_packet_iff (deserialize_accepts (by decide) (by decide) sampleSnapshot "")

/-- The packet of the sample snapshot with one more byte, and the checksum of that. -/
def paddedPacket : MigrationPacket where
  checksum := computeChecksum (serializePayload sampleSnapshot ++ [0])
  payload := serializePayload sampleSnapshot ++ [0]

/-- The padded packet is accepted as the snapshot, which encodes to another packet. -/
theorem paddedPacket_not_canonical : ¬ ∀ packet target t error error',
    deserialize packet target error = some (true, t, error') → serialize t = packet := by
  intro h
  have hread := @reads_readSnapshot sampleSnapshot (by decide) (by decide) sampleSnapshot [] [0]
  have haccepted : deserialize paddedPacket sampleSnapshot "" = some (true, sampleSnapshot, "") := by
    have hpayload : paddedPacket.payload = [] ++ serializePayload sampleSnapshot ++ [0] := by
      rw [paddedPacket, List.nil_append]
    rw [List.length_nil, ← hpayload] at hread
    rw [deserialize_of_checked (by rfl) (by rw [paddedPacket]), hread]
    rfl
  have hpayload := congrArg MigrationPacket.payload (h _ _ _ _ _ haccepted)
  rw [serialize_payload, paddedPacket] at hpayload
  have hlength := congrArg List.length hpayload
  rw [List.length_append, List.length_singleton] at hlength
  omega

end StateSerializer

end VmmShowcase

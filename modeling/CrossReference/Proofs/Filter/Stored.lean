import CrossReference.Bytes.Word
import CrossReference.Filter.Flate
import CrossReference.Proofs.Token.Words
import Mathlib.Algebra.Group.Nat.Defs

set_option autoImplicit false

/-! # Stored blocks

What the writer of compressed streams writes, the reader reads back (`decodeFlate_encodeFlate`).
Stored blocks begin and end at whole bytes, but for the three bits in front of each, so the bits are
put together into bytes first. Of a stream that is damaged, in blocks of any kind, the reader keeps
a first part of what it decompressed (`decodeFlate_damaged`). -/

namespace CrossReference.Filter

/-! ## Bytes from bits -/

namespace BitReader

variable {b : UInt8} {rest : Bytes} {out : Array UInt8}

/-- Bits of one byte, by induction on how many are read. -/
theorem bits_of_byte {n used : Nat} (hused : used < 8) (hle : used + n ≤ 8) :
    bits n ⟨b :: rest, used, out⟩ =
      .ok ((b.toNat >>> used) % 2 ^ n)
        (if used + n = 8 then ⟨rest, 0, out⟩ else ⟨b :: rest, used + n, out⟩) := by
  induction n generalizing used with
  | zero =>
    rw [Nat.add_zero, if_neg (Nat.ne_of_lt hused), Nat.pow_zero, Nat.mod_one]
    rfl
  | succ n ih =>
    have hvalue : (b.toNat >>> used) % 2 + 2 * ((b.toNat >>> (used + 1)) % 2 ^ n) =
        (b.toNat >>> used) % 2 ^ (n + 1) := by
      rw [Nat.shiftRight_succ, Nat.pow_succ', Nat.mod_mul]
    by_cases hlast : used < 7
    · have hbit : bit ⟨b :: rest, used, out⟩ =
          .ok ((b.toNat >>> used) % 2) ⟨b :: rest, used + 1, out⟩ := if_pos hlast
      rw [bits, bind_of_ok hbit, bind_of_ok (ih (by omega) (by omega)), ← hvalue,
        Nat.add_right_comm used 1 n]
      rfl
    · obtain ⟨rfl, rfl⟩ : used = 7 ∧ n = 0 := by omega
      have hbit : bit ⟨b :: rest, 7, out⟩ = .ok ((b.toNat >>> 7) % 2) ⟨rest, 0, out⟩ := rfl
      rw [bits, bind_of_ok hbit]
      rfl

/-- A whole byte. -/
theorem bits_byte : bits 8 ⟨b :: rest, 0, out⟩ = .ok b.toNat ⟨rest, 0, out⟩ := by
  rw [bits_of_byte (by decide) (by decide), Nat.shiftRight_zero, Nat.mod_eq_of_lt b.toNat_lt]
  rfl

/-- Bits that are read one after the other make one number, the first ones its lowest bits. -/
theorem bits_add {m n low high : Nat} {s s₁ s₂ : BitState} (hlow : bits m s = .ok low s₁)
    (hhigh : bits n s₁ = .ok high s₂) : bits (m + n) s = .ok (low + 2 ^ m * high) s₂ := by
  induction m generalizing s low with
  | zero =>
    cases hlow
    rw [Nat.zero_add, Nat.pow_zero, Nat.one_mul, Nat.zero_add, hhigh]
  | succ m ih =>
    obtain ⟨first, s', hbit, hlow⟩ := bind_eq_ok.mp hlow
    obtain ⟨others, s'', hothers, hlow⟩ := bind_eq_ok.mp hlow
    cases hlow
    have hvalue :
        first + 2 * (others + 2 ^ m * high) = first + 2 * others + 2 ^ (m + 1) * high := by
      rw [Nat.pow_succ', Nat.mul_add, Nat.mul_assoc, Nat.add_assoc]
    rw [Nat.add_right_comm m 1 n, bits, bind_of_ok hbit, bind_of_ok (ih hothers), ← hvalue]
    rfl

/-- Two bytes, the lower one first. -/
theorem bits_two_bytes {low high : UInt8} :
    bits 16 ⟨low :: high :: rest, 0, out⟩ =
      .ok (low.toNat + 256 * high.toNat) ⟨rest, 0, out⟩ :=
  bits_add (m := 8) (n := 8) bits_byte bits_byte

end BitReader

/-! ## Blocks -/

variable {rest : Bytes} {out : Array UInt8}

theorem inflateBytes_append (data : Bytes) (rest : Bytes) (out : Array UInt8) :
    inflateBytes data.length ⟨data ++ rest, 0, out⟩ = .ok () ⟨rest, 0, out ++ data.toArray⟩ := by
  induction data generalizing out with
  | nil => simp [inflateBytes, pure, EStateM.pure]
  | cons b data ih =>
    have hemit : BitReader.emit (UInt8.ofNat b.toNat) ⟨data ++ rest, 0, out⟩ =
        .ok () ⟨data ++ rest, 0, out.push b⟩ := by
      rw [UInt8.ofNat_toNat]
      rfl
    rw [List.length_cons, List.cons_append, inflateBytes, bind_of_ok BitReader.bits_byte,
      bind_of_ok hemit, ih]
    simp

/-- The length of a stored block, as it is written. -/
theorem toNat_length {data : Bytes} (hlength : data.length ≤ maxStored) :
    (UInt8.ofNat (data.length % 256)).toNat + 256 * (UInt8.ofNat (data.length / 256)).toNat =
      data.length := by
  unfold maxStored at hlength
  rw [UInt8.toNat_ofNat', UInt8.toNat_ofNat']
  omega

/-- The length of a stored block with every bit inverted, as it is written. -/
theorem toNat_inverted {data : Bytes} (hlength : data.length ≤ maxStored) :
    (UInt8.ofNat (255 - data.length % 256)).toNat +
      256 * (UInt8.ofNat (255 - data.length / 256)).toNat = 65535 - data.length := by
  unfold maxStored at hlength
  rw [UInt8.toNat_ofNat', UInt8.toNat_ofNat']
  omega

/-- A stored block is read back, and it is known whether it was the last one. -/
theorem inflateBlock_stored (final : Bool) {data : Bytes} (hlength : data.length ≤ maxStored) :
    inflateBlock ⟨storedBlock final data ++ rest, 0, out⟩ =
      .ok final ⟨rest, 0, out ++ data.toArray⟩ := by
  obtain ⟨mark, hmark⟩ : ∃ mark : UInt8, mark = if final then 1 else 0 := ⟨_, rfl⟩
  obtain ⟨body, hbody⟩ : ∃ body, body = (storedBlock final data).tail ++ rest := ⟨_, rfl⟩
  have hblock : storedBlock final data ++ rest = mark :: body := by
    rw [hmark, hbody]
    rfl
  -- three bits are read before the lengths, and the others of their byte are passed over
  have hbit : BitReader.bit ⟨mark :: body, 0, out⟩ =
      .ok (if final then 1 else 0) ⟨mark :: body, 1, out⟩ := by
    rw [hmark]
    cases final <;> rfl
  have hkind : BitReader.bits 2 ⟨mark :: body, 1, out⟩ = .ok 0 ⟨mark :: body, 3, out⟩ := by
    rw [BitReader.bits_of_byte (by decide) (by decide), hmark]
    cases final <;> rfl
  have halign : BitReader.align ⟨mark :: body, 3, out⟩ = .ok () ⟨body, 0, out⟩ := rfl
  have hsum : data.length + (65535 - data.length) = 0xFFFF := by
    unfold maxStored at hlength
    omega
  have hstored : inflateStored ⟨mark :: body, 3, out⟩ =
      .ok () ⟨rest, 0, out ++ data.toArray⟩ := by
    rw [inflateStored, bind_of_ok halign, hbody, storedBlock]
    dsimp only [List.cons_append, List.tail_cons, List.nil_append]
    rw [bind_of_ok BitReader.bits_two_bytes, bind_of_ok BitReader.bits_two_bytes,
      toNat_length hlength, toNat_inverted hlength, if_pos hsum]
    exact inflateBytes_append data rest out
  rw [hblock, inflateBlock, bind_of_ok hbit, bind_of_ok hkind]
  refine (bind_of_ok hstored).trans ?_
  cases final <;> rfl

/-- Stored blocks are read back, by induction on the blocks. Each round reads one, and has more than
    one byte of the data unless it is the last. -/
theorem inflateBlocks_stored {data : Bytes} {rounds : Nat} (hrounds : data.length < rounds) :
    inflateBlocks rounds ⟨storedBlocks data ++ rest, 0, out⟩ =
      .ok () ⟨rest, 0, out ++ data.toArray⟩ := by
  induction rounds generalizing data out with
  | zero => exact absurd hrounds (Nat.not_lt_zero _)
  | succ rounds ih =>
    unfold storedBlocks
    split
    · rename_i hlong
      have htake : (data.take maxStored).length ≤ maxStored := List.length_take_le _ _
      have hdrop : (data.drop maxStored).length < rounds := by
        have hpos : 0 < maxStored := by decide
        rw [List.length_drop]
        omega
      rw [List.append_assoc, inflateBlocks, bind_of_ok (inflateBlock_stored false htake)]
      refine (ih hdrop).trans ?_
      rw [Array.append_assoc, List.append_toArray (data.take maxStored), List.take_append_drop]
    · rename_i hshort
      rw [inflateBlocks, bind_of_ok (inflateBlock_stored true (Nat.not_lt.mp hshort))]
      rfl

theorem length_lt_storedBlocks (data : Bytes) : data.length < (storedBlocks data).length := by
  induction data using storedBlocks.induct with
  | case1 data hlong ih =>
    unfold storedBlocks
    rw [dif_pos hlong, List.length_append, storedBlock, List.length_append, List.length_take,
      Nat.min_eq_left (Nat.le_of_lt hlong)]
    rw [List.length_drop] at ih
    omega
  | case2 data hshort =>
    unfold storedBlocks
    rw [dif_neg hshort, storedBlock, List.length_append]
    simp only [List.length_cons]
    omega

/-! ## Streams -/

theorem word32_bytes {a b c d : UInt8} :
    word32 ⟨a :: b :: c :: d :: rest, 0, out⟩ =
      .ok (Bytes.toNat [a, b, c, d]) ⟨rest, 0, out⟩ := by
  rw [word32, bind_of_ok BitReader.bits_byte, bind_of_ok BitReader.bits_byte,
    bind_of_ok BitReader.bits_byte, bind_of_ok BitReader.bits_byte]
  simp only [Bytes.toNat, List.foldl_cons, List.foldl_nil, Nat.zero_mul, Nat.zero_add]
  rfl

theorem checksumSums_lt (data : Bytes) :
    (checksumSums data).1 < checksumModulus ∧ (checksumSums data).2 < checksumModulus := by
  unfold checksumSums
  refine List.foldlRecOn data _
    (motive := fun s : Nat × Nat => s.1 < checksumModulus ∧ s.2 < checksumModulus)
    (by decide) fun _ _ _ _ => ?_
  exact ⟨Nat.mod_lt _ (by decide), Nat.mod_lt _ (by decide)⟩

theorem checksum_lt (data : Bytes) : checksum data < 256 ^ 4 := by
  obtain ⟨hfirst, hsecond⟩ := checksumSums_lt data
  unfold checksumModulus at hfirst hsecond
  change (checksumSums data).2 * 65536 + (checksumSums data).1 < 256 ^ 4
  omega

/-- A compressed stream is read to its end, and its checksum is right. -/
theorem flateStream_encodeFlate (data : Bytes) :
    flateStream { bytes := encodeFlate data } = .ok () ⟨[], 0, data.toArray⟩ := by
  obtain ⟨a, b, c, d, hsum⟩ : ∃ a b c d, Bytes.bigEndian (checksum data) 4 = [a, b, c, d] :=
    ⟨_, _, _, _, rfl⟩
  have hexpected : Bytes.toNat [a, b, c, d] = checksum data := by
    rw [← hsum, Bytes.toNat_bigEndian]
    exact Nat.mod_eq_of_lt (checksum_lt data)
  have hinflate : inflate ⟨storedBlocks data ++ [a, b, c, d], 0, #[]⟩ =
      .ok () ⟨[a, b, c, d], 0, data.toArray⟩ := by
    have hrounds : data.length <
        BitState.remaining ⟨storedBlocks data ++ [a, b, c, d], 0, #[]⟩ := by
      have hlength := length_lt_storedBlocks data
      change data.length < 8 * (storedBlocks data ++ [a, b, c, d]).length - 0
      rw [List.length_append]
      omega
    refine (inflateBlocks_stored hrounds).trans ?_
    rw [Array.empty_append]
  have halign : BitReader.align ⟨[a, b, c, d], 0, data.toArray⟩ =
      .ok () ⟨[a, b, c, d], 0, data.toArray⟩ := rfl
  have hbytes : encodeFlate data = 0x78 :: 0x01 :: (storedBlocks data ++ [a, b, c, d]) := by
    rw [encodeFlate, hsum]
    rfl
  have hheader : isFlateHeader (0x78 : UInt8).toNat (0x01 : UInt8).toNat = true := by decide
  rw [hbytes, flateStream, bind_of_ok BitReader.bits_byte, bind_of_ok BitReader.bits_byte, hheader,
    Bool.not_true, if_neg Bool.false_ne_true]
  refine (bind_of_ok hinflate).trans ?_
  have hget : (get : BitReader BitState) ⟨[], 0, data.toArray⟩ =
      .ok ⟨[], 0, data.toArray⟩ ⟨[], 0, data.toArray⟩ := rfl
  rw [bind_of_ok halign, bind_of_ok word32_bytes, hexpected, bind_of_ok hget]
  dsimp only
  rw [if_neg fun h => h rfl]
  rfl

/-- A compressed stream gives back the data that it was made of. -/
theorem decodeFlate_encodeFlate (data : Bytes) : decodeFlate (encodeFlate data) = .ok data := by
  unfold decodeFlate
  rw [flateStream_encodeFlate]

/-! ## Damaged streams -/

theorem salvage_eq_ok {fault : StreamFault} {part kept : Bytes} :
    salvage fault part = .ok kept ↔ part ≠ [] ∧ part = kept := by
  cases part <;> simp [salvage]

/-- What is kept of a damaged stream is a part of what was decompressed, from its beginning on, and
    it is never empty. -/
theorem decodeFlate_damaged {data kept : Bytes} {fault : Stop} {s : BitState}
    (damaged : flateStream { bytes := data } = .error fault s) (h : decodeFlate data = .ok kept) :
    kept ≠ [] ∧ kept <+: s.out.toList := by
  unfold decodeFlate at h
  rw [damaged] at h
  cases fault with
  | truncated =>
    obtain ⟨hne, rfl⟩ := salvage_eq_ok.mp h
    exact ⟨hne, List.prefix_rfl⟩
  | corrupt =>
    obtain ⟨hne, rfl⟩ := salvage_eq_ok.mp h
    exact ⟨hne, List.take_prefix _ _⟩

end CrossReference.Filter

import Konnekt.Correctness.ReedSolomon
import Konnekt.Qr.Reader
import Mathlib

/-!
# The codewords read back

The bits of a text are packed into data codewords, these are split into blocks, each with its
check codewords, and all are interleaved. Dealing the stream out column by column gives the
blocks back, each a codeword of the generator, and their data the bytes of the text.
-/

namespace Konnekt.Qr

open Codes

/-! ## The codeword stream -/

theorem appendBits_eq (bits : List Nat) (value length : Nat) :
    appendBits bits value length = bits ++ bitsOf value length := rfl

theorem foldl_appendBits (bytes bits : List Nat) :
    bytes.foldl (fun bits byte => appendBits bits byte 8) bits = bits ++ written 8 bytes := by
  induction bytes generalizing bits with
  | nil => rw [List.foldl_nil, written_nil, List.append_nil]
  | cons byte bytes ih =>
    rw [List.foldl_cons, ih, appendBits_eq, written_cons, List.append_assoc]

/-- The loop that makes a codeword of eight bits reads a number. -/
theorem foldl_or_eq_number {bits : List Nat} (h : Binary bits) :
    bits.foldl (fun acc bit => (acc <<< 1) ||| bit) 0 = number bits := by
  induction bits using List.reverseRecOn with
  | nil => rfl
  | append_singleton bits b ih =>
    have hb := h b (List.mem_append_right bits List.mem_cons_self)
    rw [List.foldl_append, ih fun c hc => h c (List.mem_append_left [b] hc), number_concat,
      List.foldl_cons, List.foldl_nil, ← Nat.shiftLeft_add_eq_or_of_lt (by rwa [pow_one]),
      Nat.shiftLeft_eq, pow_one, Nat.mul_comm]

theorem map_take_drop (width count : Nat) (bits : List Nat) :
    (List.range count).map (fun k => number ((bits.drop (width * k)).take width)) =
      readNumbers width count bits := by
  induction count generalizing bits with
  | zero => rfl
  | succ count ih =>
    rw [List.range_succ_eq_map, List.map_cons, List.map_map, Nat.mul_zero, List.drop_zero,
      readNumbers, ← ih]
    congr 1
    exact List.map_congr_left fun k _ => by
      rw [Function.comp_apply, List.drop_drop, Nat.succ_eq_add_one, Nat.mul_succ, Nat.add_comm]

theorem words_eq {bits : List Nat} (h : Binary bits) {count : Nat}
    (hlength : bits.length = 8 * count) : words bits = readNumbers 8 count bits := by
  have hcount : (bits.length + 7) / 8 = count := by omega
  rw [words, hcount, ← map_take_drop]
  exact List.map_congr_left fun k _ =>
    foldl_or_eq_number fun b hb => h b (List.mem_of_mem_drop (List.mem_of_mem_take hb))

theorem length_padded (n pad : Nat) : (padded n pad).length = n := by
  induction n generalizing pad with
  | zero => rfl
  | succ n ih => rw [padded, List.length_cons, ih]

theorem padded_lt (n : Nat) {pad : Nat} (h : pad < 256) : ∀ w ∈ padded n pad, w < 256 := by
  induction n generalizing pad with
  | zero => exact fun w hw => absurd hw List.not_mem_nil
  | succ n ih =>
    intro w hw
    rcases List.mem_cons.1 hw with rfl | hw
    · exact h
    · exact ih (Nat.xor_lt_two_pow (n := 8) h (by decide)) w hw

/-- The bits in front of the pad codewords: mode, count, data and a terminator of four zeros. -/
def header (bytes : List Nat) (version : Nat) : List Nat :=
  bitsOf 0b0100 4 ++ bitsOf bytes.length (countBits version) ++ written 8 bytes ++ bitsOf 0 4

/-- A version that the code writes and that holds so many bytes. -/
structure Holds (version byteLength : Nat) : Prop where
  low : 1 ≤ version
  high : version ≤ 10
  fits : byteLength ≤ byteCapacity version

theorem selectVersion_holds {n : Nat} (h : n ≤ 213) : ∃ v, selectVersion n = .ok v ∧ Holds v n := by
  have hten : n ≤ byteCapacity 10 := h
  rw [selectVersion]
  cases hfind : (List.range' MIN_VERSION (MAX_VERSION + 1 - MIN_VERSION)).find?
      fun v => n ≤ byteCapacity v with
  | none =>
    rw [List.find?_eq_none] at hfind
    exact absurd (decide_eq_true hten) (hfind 10 (by decide))
  | some v =>
    have hmem := List.mem_of_find?_eq_some hfind
    have hfound := List.find?_some hfind
    rw [List.mem_range'_1] at hmem
    exact ⟨v, rfl, hmem.1, Nat.lt_succ_iff.1 hmem.2, of_decide_eq_true hfound⟩

/-- The capacity leaves room for the terminator, and the bits in front of the pads are whole
codewords. -/
theorem Holds.room {v n : Nat} (h : Holds v n) :
    ∃ k, 4 + countBits v + 8 * n + 4 = 8 * k ∧ k ≤ dataCodewordCount v ∧
      n < 2 ^ countBits v := by
  obtain ⟨hlow, hhigh, hfits⟩ := h
  have hcapacity : byteCapacity v = (dataCodewordCount v * 8 - 4 - countBits v) / 8 := rfl
  by_cases hten : v < 10
  · have hcount : countBits v = 8 := if_pos hten
    have hsmall : byteCapacity v < 256 := by interval_cases v <;> decide
    have hpos : 2 ≤ dataCodewordCount v := by interval_cases v <;> decide
    rw [hcount] at hcapacity ⊢
    exact ⟨n + 2, by omega, by omega, by omega⟩
  · obtain rfl : v = 10 := by omega
    have hcount : countBits 10 = 16 := rfl
    have hwords : dataCodewordCount 10 = 216 := rfl
    rw [hcount, hwords] at hcapacity ⊢
    exact ⟨n + 3, by omega, by omega, by omega⟩

theorem binary_append {as bs : List Nat} (ha : Binary as) (hb : Binary bs) :
    Binary (as ++ bs) := fun c hc => (List.mem_append.1 hc).elim (ha c) (hb c)

theorem binary_header (bytes : List Nat) (version : Nat) : Binary (header bytes version) :=
  binary_append (binary_append (binary_append (binary_bitsOf _ _) (binary_bitsOf _ _))
    (binary_written 8 bytes)) (binary_bitsOf _ _)

theorem length_header (bytes : List Nat) (version : Nat) :
    (header bytes version).length = 4 + countBits version + 8 * bytes.length + 4 := by
  simp only [header, List.length_append, length_bitsOf, length_written]

/-- The data codewords are the words of the header, and pads. -/
theorem dataCodewords_eq {bytes : List Nat} {v k : Nat}
    (hk : 4 + countBits v + 8 * bytes.length + 4 = 8 * k) (hroom : k ≤ dataCodewordCount v) :
    dataCodewords bytes v = readNumbers 8 k (header bytes v) ++
      padded (dataCodewordCount v - k) 0xec := by
  have hbits : bytes.foldl (fun bits byte => appendBits bits byte 8)
      (appendBits (appendBits [] 0b0100 4) bytes.length (countBits v)) =
        bitsOf 0b0100 4 ++ bitsOf bytes.length (countBits v) ++ written 8 bytes := by
    rw [foldl_appendBits, appendBits_eq, appendBits_eq, List.nil_append]
  have hlength : (bitsOf 0b0100 4 ++ bitsOf bytes.length (countBits v) ++
      written 8 bytes).length = 4 + countBits v + 8 * bytes.length := by
    simp only [List.length_append, length_bitsOf, length_written]
  have hterminator :
      min 4 (dataCodewordCount v * 8 - (4 + countBits v + 8 * bytes.length)) = 4 := by
    omega
  have haligned : aligned (header bytes v) = header bytes v := by
    have hmod : (8 - (header bytes v).length % 8) % 8 = 0 := by
      rw [length_header]
      omega
    rw [aligned, hmod, List.replicate_zero, List.append_nil]
  have hwords : words (header bytes v) = readNumbers 8 k (header bytes v) :=
    words_eq (binary_header bytes v) ((length_header bytes v).trans hk)
  rw [dataCodewords, hbits, hlength, hterminator, appendBits_eq, ← header, haligned, hwords,
    length_readNumbers, Nat.mul_div_cancel _ (by decide)]

theorem length_dataCodewords {bytes : List Nat} {v : Nat} (h : Holds v bytes.length) :
    (dataCodewords bytes v).length = dataCodewordCount v := by
  obtain ⟨k, hk, hroom, -⟩ := h.room
  rw [dataCodewords_eq hk hroom, List.length_append, length_readNumbers, length_padded]
  omega

theorem dataCodewords_lt {bytes : List Nat} {v : Nat} (h : Holds v bytes.length) :
    ∀ w ∈ dataCodewords bytes v, w < 256 := by
  obtain ⟨k, hk, hroom, -⟩ := h.room
  rw [dataCodewords_eq hk hroom]
  intro w hw
  rcases List.mem_append.1 hw with hw | hw
  · exact readNumbers_lt (binary_header bytes v) w hw
  · exact padded_lt _ (by decide) w hw

/-- The bytes are read back from the data codewords. -/
theorem readBytes_dataCodewords {bytes : List Nat} (hbytes : ∀ b ∈ bytes, b < 256) {v : Nat}
    (h : Holds v bytes.length) : readBytes v (dataCodewords bytes v) = some bytes := by
  obtain ⟨k, hk, hroom, hcount⟩ := h.room
  have hstream : written 8 (dataCodewords bytes v) =
      header bytes v ++ written 8 (padded (dataCodewordCount v - k) 0xec) := by
    rw [dataCodewords_eq hk hroom, written_append, written_readNumbers (binary_header bytes v)
      ((length_header bytes v).trans hk)]
  generalize written 8 (padded (dataCodewordCount v - k) 0xec) = pads at hstream
  have hwidth : (if v ≤ 9 then 8 else 16) = countBits v := by
    rw [countBits]
    exact if_congr (Nat.lt_succ_iff).symm rfl rfl
  have hmode : (written 8 (dataCodewords bytes v)).take 4 = bitsOf 0b0100 4 := by
    rw [hstream, header, List.append_assoc, List.append_assoc, List.append_assoc,
      List.take_left' (length_bitsOf _ _)]
  have hrest : (written 8 (dataCodewords bytes v)).drop 4 =
      bitsOf bytes.length (countBits v) ++ (written 8 bytes ++ (bitsOf 0 4 ++ pads)) := by
    rw [hstream, header, List.append_assoc, List.append_assoc, List.append_assoc,
      List.drop_left' (length_bitsOf _ _)]
  have hbody : (written 8 (dataCodewords bytes v)).drop (4 + countBits v) =
      written 8 bytes ++ (bitsOf 0 4 ++ pads) := by
    rw [← List.drop_drop, hrest, List.drop_left' (length_bitsOf _ _)]
  have hnumber : number (bitsOf bytes.length (countBits v)) = bytes.length := number_bitsOf hcount
  have hlength :
      4 + countBits v + 8 * bytes.length ≤ (written 8 (dataCodewords bytes v)).length := by
    rw [length_written, length_dataCodewords h]
    omega
  rw [readBytes, hwidth, hrest, List.take_left' (length_bitsOf _ _), hnumber, hmode, hbody,
    readNumbers_written hbytes, if_pos ⟨rfl, hlength⟩]

/-! ## Blocks -/

theorem le_foldl_max {ls : List Nat} {l a : Nat} (h : l ∈ ls ∨ l ≤ a) : l ≤ ls.foldl max a := by
  induction ls generalizing a with
  | nil => exact h.resolve_left List.not_mem_nil
  | cons m ls ih =>
    refine ih ?_
    rcases h with h | h
    · rcases List.mem_cons.1 h with rfl | h
      · exact Or.inr (le_max_right a l)
      · exact Or.inl h
    · exact Or.inr (h.trans (le_max_left a m))

/-- The blocks cover the data in its order. -/
theorem flatten_blocksOf (data : List Nat) (lens : List Nat) (start : Nat) :
    (blocksOf data lens start).flatten = (data.drop start).take lens.sum := by
  induction lens generalizing start with
  | nil => rw [blocksOf, List.flatten_nil, List.sum_nil, List.take_zero]
  | cons len lens ih =>
    rw [blocksOf, List.flatten_cons, ih, List.sum_cons, List.take_add, List.drop_drop]

theorem length_blocksOf {data : List Nat} {lens : List Nat} {start : Nat}
    (h : start + lens.sum ≤ data.length) : (blocksOf data lens start).map List.length = lens := by
  induction lens generalizing start with
  | nil => rfl
  | cons len lens ih =>
    rw [List.sum_cons] at h
    rw [blocksOf, List.map_cons, ih (by omega), List.length_take, List.length_drop,
      Nat.min_eq_left (by omega)]

theorem mem_of_mem_blocksOf {data block : List Nat} {lens : List Nat} {start : Nat}
    (h : block ∈ blocksOf data lens start) {w : Nat} (hw : w ∈ block) : w ∈ data := by
  induction lens generalizing start with
  | nil => exact absurd h List.not_mem_nil
  | cons len lens ih =>
    rcases List.mem_cons.1 h with rfl | h
    · exact List.mem_of_mem_drop (List.mem_of_mem_take hw)
    · exact ih h

/-- The check codewords of a block. -/
def checkOf (ec : Nat) (block : List Nat) : List Nat :=
  block.foldl (encodeStep (generatorOf ec) ec) (List.replicate ec 0)

theorem checksOf_kept (calls : List Nat) (ec : Nat) (blocks : List (List Nat)) :
    (checksOf (kept calls) ec blocks).1 = blocks.map (checkOf ec) := by
  induction blocks generalizing calls with
  | nil => rfl
  | cons block blocks ih =>
    have hkept : (rsEncode (kept calls) block ec).2 = kept (calls ++ [ec]) := by
      unfold kept
      rw [List.foldl_append]
      rfl
    have hrest : checksOf (kept calls) ec (block :: blocks) =
        ((rsEncode (kept calls) block ec).1 ::
            (checksOf (rsEncode (kept calls) block ec).2 ec blocks).1,
          (checksOf (rsEncode (kept calls) block ec).2 ec blocks).2) := rfl
    rw [hrest, hkept, ih, rsEncode_kept, List.map_cons, checkOf]

theorem checkOf_spec {ec : Nat} (hec : ec ≠ 0) {block : List Nat} (hblock : Bytes block) :
    Bytes (checkOf ec block) ∧ (checkOf ec block).length = ec := by
  have hbytes : Bytes (List.replicate ec 0) := by
    intro c hc
    rw [List.eq_of_mem_replicate hc]
    decide
  have hstart : poly (generatorOf ec) ∣
      0 * Polynomial.X ^ ec - horner element (List.replicate ec 0) := by
    rw [zero_mul, horner_replicate element_zero, sub_zero]
    exact dvd_zero _
  exact (dvd_of_foldl (fun rem => Bytes rem ∧ rem.length = ec) block
    (fun rem p hrem h c hc => by
      obtain ⟨hb, hl, hd⟩ := encodeStep_spec hec hrem.1 hrem.2 h (hblock c hc)
      exact ⟨⟨hb, hl⟩, hd⟩) ⟨hbytes, List.length_replicate⟩ hstart).1

/-- A block with its check codewords is a codeword of the generator. -/
theorem dvd_checkOf {ec : Nat} (hec : ec ≠ 0) (hle : ec ≤ 512) {block : List Nat}
    (hblock : Bytes block) :
    (∏ i ∈ Finset.range ec, (Polynomial.X - Polynomial.C (alpha ^ i))) ∣
      poly (block ++ checkOf ec block) := by
  have hdvd := (encode_spec ec hblock).2
  rw [(generatorOf_spec ec).2.2, prod_factor hle, ← checkOf, CharTwo.sub_eq_add] at hdvd
  rwa [poly, horner_append, (checkOf_spec hec hblock).2, ← poly]

/-! ### Columns -/

theorem dealColumn_column (i : Nat) (blocks : List (List Nat)) (rest : List Nat) :
    dealColumn i (blocks.map List.length) (blocks.map (·.take i)) (column blocks i ++ rest) =
      (blocks.map (·.take (i + 1)), rest) := by
  induction blocks with
  | nil => rfl
  | cons block blocks ih =>
    rw [List.map_cons, List.map_cons, List.map_cons, dealColumn]
    by_cases hi : i < block.length
    · have hcolumn : column (block :: blocks) i = block[i] :: column blocks i := by
        rw [column, List.filterMap_cons, List.getElem?_eq_getElem hi]
        rfl
      rw [hcolumn, if_pos hi, List.cons_append, List.drop_succ_cons, List.drop_zero,
        List.take_succ_cons, List.take_zero, ih, List.take_add_one, List.getElem?_eq_getElem hi]
      rfl
    · have hcolumn : column (block :: blocks) i = column blocks i := by
        rw [column, List.filterMap_cons, List.getElem?_eq_none (Nat.le_of_not_lt hi)]
        rfl
      rw [hcolumn, if_neg hi, List.drop_zero, List.take_zero, ih, List.append_nil,
        List.take_of_length_le (Nat.le_of_not_lt hi),
        List.take_of_length_le (Nat.le_succ_of_le (Nat.le_of_not_lt hi))]

theorem deal_columns (blocks : List (List Nat)) (rest : List Nat) (n : Nat) :
    (List.range n).foldl (fun dealt i => dealColumn i (blocks.map List.length) dealt.1 dealt.2)
        (blocks.map (·.take 0), (List.range n).flatMap (column blocks) ++ rest) =
      (blocks.map (·.take n), rest) := by
  induction n generalizing rest with
  | zero => rfl
  | succ n ih =>
    rw [List.range_succ, List.flatMap_append, List.append_assoc, List.foldl_append, ih,
      List.flatMap_singleton, List.foldl_cons, List.foldl_nil, dealColumn_column]

/-- Dealing out what was taken column by column gives the blocks back. -/
theorem deal_flatMap_column (blocks : List (List Nat)) (rest : List Nat) :
    deal (blocks.map List.length)
        ((List.range ((blocks.map List.length).foldl max 0)).flatMap (column blocks) ++ rest) =
      (blocks, rest) := by
  have hempty :
      (blocks.map List.length).map (fun _ => ([] : List Nat)) = blocks.map (·.take 0) := by
    rw [List.map_map]
    exact List.map_congr_left fun _ _ => List.take_zero.symm
  have hwhole : blocks.map (·.take ((blocks.map List.length).foldl max 0)) = blocks := by
    conv_rhs => rw [← List.map_id blocks]
    exact List.map_congr_left fun block hblock =>
      List.take_of_length_le (le_foldl_max (Or.inl (List.mem_map_of_mem hblock)))
  rw [deal, hempty, deal_columns, hwhole]

theorem foldl_max_replicate {n : Nat} (hn : n ≠ 0) (ec : Nat) :
    (List.replicate n ec).foldl max 0 = ec := by
  have hle : ∀ n, ∀ a ≤ ec, (List.replicate n ec).foldl max a ≤ ec := by
    intro n
    induction n with
    | zero => exact fun a ha => ha
    | succ n ih => exact fun a ha => ih _ (max_le ha le_rfl)
  exact Nat.le_antisymm (hle n 0 (Nat.zero_le ec))
    (le_foldl_max (Or.inl (List.mem_replicate.2 ⟨hn, rfl⟩)))

theorem Holds.blockTable_eq {v n : Nat} (h : Holds v n) :
    blockTable v = ((layout v).ec, blockLengths v) ∧ (blockLengths v).sum = dataCodewordCount v ∧
      (layout v).ec ≠ 0 ∧ (layout v).ec ≤ 512 := by
  obtain ⟨hlow, hhigh, -⟩ := h
  interval_cases v <;> decide

/-- The codewords do not depend on what earlier calls have kept. -/
theorem interleave_kept (calls : List Nat) (data : List Nat) (v : Nat) :
    (interleave (kept calls) data v).1 =
      (List.range (((blocksOf data (blockLengths v) 0).map List.length).foldl max 0)).flatMap
          (column (blocksOf data (blockLengths v) 0)) ++
        (List.range (layout v).ec).flatMap
          (column ((blocksOf data (blockLengths v) 0).map (checkOf (layout v).ec))) := by
  rw [← checksOf_kept calls]
  rfl

/-- The blocks are read back, and each is a codeword of the generator. -/
theorem readBlocks_interleave (calls : List Nat) {data : List Nat} (hdata : Bytes data) {v n : Nat}
    (h : Holds v n) (hlength : data.length = dataCodewordCount v) :
    readBlocks v (interleave (kept calls) data v).1 =
      (blocksOf data (blockLengths v) 0).map fun block => (block, checkOf (layout v).ec block) := by
  obtain ⟨htable, hsum, hec, -⟩ := h.blockTable_eq
  have hlens : (blocksOf data (blockLengths v) 0).map List.length = blockLengths v :=
    length_blocksOf (by omega)
  have hblocks : ∀ block ∈ blocksOf data (blockLengths v) 0, Bytes block :=
    fun block hblock w hw => hdata w (mem_of_mem_blocksOf hblock hw)
  generalize hdef : blocksOf data (blockLengths v) 0 = blocks at hlens hblocks
  have hchecks : (blocks.map (checkOf (layout v).ec)).map List.length =
      (blockLengths v).map fun _ => (layout v).ec := by
    rw [← hlens, List.map_map, List.map_map]
    exact List.map_congr_left fun block hblock => (checkOf_spec hec (hblocks block hblock)).2
  have hlongest : ((blocks.map (checkOf (layout v).ec)).map List.length).foldl max 0 =
      (layout v).ec := by
    have hne : (blockLengths v).length ≠ 0 := by
      obtain ⟨hlow, hhigh, -⟩ := h
      interval_cases v <;> decide
    rw [hchecks, List.map_const', foldl_max_replicate hne]
  have hdeal := deal_flatMap_column (blocks.map (checkOf (layout v).ec)) []
  rw [hlongest, List.append_nil, hchecks] at hdeal
  rw [readBlocks, htable]
  dsimp only
  rw [interleave_kept, hdef, ← hlens, deal_flatMap_column, hlens, hdeal]
  dsimp only
  have hzip := @List.zip_map' _ _ _ id (checkOf (layout v).ec) blocks
  rwa [List.map_id] at hzip

/-! ### The length of the stream -/

theorem length_column_add (blocks : List (List Nat)) (i : Nat) :
    (blocks.map fun block => (block.take i).length).sum + (column blocks i).length =
      (blocks.map fun block => (block.take (i + 1)).length).sum := by
  induction blocks with
  | nil => rfl
  | cons block blocks ih =>
    rw [List.map_cons, List.map_cons, List.sum_cons, List.sum_cons, ← ih, List.length_take,
      List.length_take]
    by_cases hi : i < block.length
    · rw [column, List.filterMap_cons, List.getElem?_eq_getElem hi]
      dsimp only
      rw [List.length_cons, ← column]
      omega
    · rw [column, List.filterMap_cons, List.getElem?_eq_none (Nat.le_of_not_lt hi)]
      dsimp only
      rw [← column]
      omega

theorem length_columns (blocks : List (List Nat)) (n : Nat) :
    ((List.range n).flatMap (column blocks)).length =
      (blocks.map fun block => (block.take n).length).sum := by
  induction n with
  | zero =>
    have hzero : (blocks.map fun block => (block.take 0).length) = blocks.map fun _ => 0 := rfl
    rw [hzero, List.map_const', List.sum_replicate, smul_zero]
    rfl
  | succ n ih =>
    rw [List.range_succ, List.flatMap_append, List.length_append, ih, List.flatMap_singleton,
      length_column_add]

/-- The columns up to the longest block have all codewords. -/
theorem length_columns_of_le {blocks : List (List Nat)} {n : Nat}
    (h : ∀ block ∈ blocks, block.length ≤ n) :
    ((List.range n).flatMap (column blocks)).length = (blocks.map List.length).sum := by
  rw [length_columns]
  congr 1
  exact List.map_congr_left fun block hblock => by rw [List.take_of_length_le (h block hblock)]

theorem bytes_columns {blocks : List (List Nat)} (h : ∀ block ∈ blocks, Bytes block) (n : Nat) :
    Bytes ((List.range n).flatMap (column blocks)) := by
  intro w hw
  obtain ⟨i, -, hw⟩ := List.mem_flatMap.1 hw
  obtain ⟨block, hblock, hw⟩ := List.mem_filterMap.1 hw
  exact h block hblock w (List.mem_of_getElem? hw)

theorem interleave_spec (calls : List Nat) {data : List Nat} (hdata : Bytes data) {v n : Nat}
    (h : Holds v n) (hlength : data.length = dataCodewordCount v) :
    Bytes (interleave (kept calls) data v).1 ∧
      (interleave (kept calls) data v).1.length = totalCodewords v := by
  obtain ⟨htable, hsum, hec, -⟩ := h.blockTable_eq
  have hlens : (blocksOf data (blockLengths v) 0).map List.length = blockLengths v :=
    length_blocksOf (by omega)
  have hblocks : ∀ block ∈ blocksOf data (blockLengths v) 0, Bytes block :=
    fun block hblock w hw => hdata w (mem_of_mem_blocksOf hblock hw)
  rw [interleave_kept, totalCodewords, htable]
  generalize blocksOf data (blockLengths v) 0 = blocks at hlens hblocks ⊢
  have hchecks (check : List Nat) (hcheck : check ∈ blocks.map (checkOf (layout v).ec)) :
      Bytes check ∧ check.length = (layout v).ec := by
    obtain ⟨block, hblock, rfl⟩ := List.mem_map.1 hcheck
    exact checkOf_spec hec (hblocks block hblock)
  have hcount : ((blocks.map (checkOf (layout v).ec)).map List.length).sum =
      (blockLengths v).length * (layout v).ec := by
    rw [← hlens, List.length_map, List.map_map]
    have hconst : blocks.map (List.length ∘ checkOf (layout v).ec) =
        blocks.map fun _ => (layout v).ec := List.map_congr_left fun block hblock =>
      (checkOf_spec hec (hblocks block hblock)).2
    rw [hconst, List.map_const', List.sum_replicate, smul_eq_mul]
  constructor
  · intro w hw
    rcases List.mem_append.1 hw with hw | hw
    · exact bytes_columns hblocks _ w hw
    · exact bytes_columns (fun check hcheck => (hchecks check hcheck).1) _ w hw
  · rw [List.length_append, length_columns_of_le, length_columns_of_le, hlens, hcount]
    · exact fun check hcheck => (hchecks check hcheck).2.le
    · exact fun block hblock => le_foldl_max (Or.inl (List.mem_map_of_mem hblock))

end Konnekt.Qr

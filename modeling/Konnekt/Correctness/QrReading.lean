import Konnekt.Correctness.QrModules
import Mathlib

/-!
# A symbol reads back

Whatever mask is forced or chosen, the reader finds the version, the mask, the codewords and the
bytes of the text in what `encodeQr` returns, and no function module is overwritten by data.
-/

namespace Konnekt.Qr

open Codes

variable {size x y : Nat} {rows : Modules} {calls : List Call}

/-! ## The symbol that is drawn -/

theorem cell_draw_of_forall (h : Square size rows) (hcalls : Within size calls) {b : Bool}
    (hhits : Hits calls x y) (hall : ∀ c ∈ calls, c.x = x → c.y = y → c.dark = b) :
    cell (draw rows calls) x y = b := by
  induction calls generalizing rows with
  | nil =>
    obtain ⟨c, hc, -⟩ := hhits
    exact absurd hc List.not_mem_nil
  | cons c calls ih =>
    have hc := hcalls c List.mem_cons_self
    have hrest : Within size calls := fun d hd => hcalls d (List.mem_cons_of_mem c hd)
    rw [draw, List.foldl_cons, ← draw]
    by_cases hlater : Hits calls x y
    · exact ih (h.write c.x c.y c.dark) hrest hlater
        fun d hd => hall d (List.mem_cons_of_mem c hd)
    · have hat : c.x = x ∧ c.y = y := by
        obtain ⟨d, hd, hat⟩ := hhits
        rcases List.mem_cons.1 hd with rfl | hd
        · exact hat
        · exact absurd ⟨d, hd, hat⟩ hlater
      rw [cell_draw_of_not_hits (h.write c.x c.y c.dark) hrest hlater, cell_write h hc.1 hc.2,
        if_pos ⟨hat.1.symm, hat.2.symm⟩, hall c List.mem_cons_self hat.1 hat.2]

/-- The function modules of a symbol: the patterns, with the format information of its mask and
the version information. -/
def functionPatterns (v k : Nat) : Modules :=
  draw (drawFunctionPatterns v).dark (information v k)

/-- A symbol as it is drawn: the codewords in the free modules, all masked. -/
def symbolOf (v : Nat) (codewords : List Nat) (k : Nat) : Modules :=
  masked (placeCodewords (drawFunctionPatterns v) codewords) v k

/-- The modules before the mask. -/
def unmasked (v : Nat) (codewords : List Nat) : Modules :=
  ((visited (width v)).foldl (placeStep (drawFunctionPatterns v).fixed codewords)
    (0, (drawFunctionPatterns v).dark)).2

/-- What the mask makes of a module. -/
def turned (v k x y : Nat) (dark : Bool) : Bool :=
  if cell (drawFunctionPatterns v).fixed x y then dark
  else dark != MASKS.getD k (fun _ _ => false) y x

theorem size_patterns (v : Nat) : (drawFunctionPatterns v).size = width v := by
  rw [drawFunctionPatterns_eq]

theorem symbolOf_eq (v : Nat) (codewords : List Nat) (k : Nat) : symbolOf v codewords k =
    draw ((unmasked v codewords).mapIdx fun y row => row.mapIdx fun x dark => turned v k x y dark)
      (information v k) := by
  unfold symbolOf unmasked information turned
  rw [← size_patterns]
  generalize drawFunctionPatterns v = grid
  rfl

section Symbol

variable {v : Nat} (hlow : 1 ≤ v) (hhigh : v ≤ 10)

theorem square_patterns (v : Nat) : Square (width v) (drawFunctionPatterns v).dark := by
  rw [drawFunctionPatterns_eq]
  exact (square_blank _).draw _

theorem square_unmasked (v : Nat) (codewords : List Nat) :
    Square (width v) (unmasked v codewords) := (square_patterns v).place (s := (0, _))

theorem square_symbolOf (v : Nat) (codewords : List Nat) (k : Nat) :
    Square (width v) (symbolOf v codewords k) := by
  rw [symbolOf_eq]
  exact ((square_unmasked v codewords).mapIdx (turned v k)).draw _

theorem visited_within (v : Nat) : ∀ c ∈ visited (width v), c.1 < width v ∧ c.2 < width v := by
  have hsize : 0 < width v := by
    rw [width]
    omega
  exact (visited_spec hsize).2

include hlow hhigh

theorem cell_unmasked (codewords : List Nat) (hx : x < width v) (hy : y < width v)
    (h : isFunction v x y = true) :
    cell (unmasked v codewords) x y = cell (drawFunctionPatterns v).dark x y := by
  refine cell_place_of_not_free (square_patterns v) (visited_within v) fun hmem => ?_
  have hfree := (List.mem_filter.1 hmem).2
  rw [cell_fixed hlow hhigh hx hy, h] at hfree
  cases hfree

/-- No data and no mask reaches a function module. -/
theorem cell_symbolOf_of_function (codewords : List Nat) (k : Nat) (hx : x < width v)
    (hy : y < width v) (h : isFunction v x y = true) :
    cell (symbolOf v codewords k) x y = cell (functionPatterns v k) x y := by
  have hsquare := (square_unmasked v codewords).mapIdx (turned v k)
  rw [symbolOf_eq, functionPatterns]
  by_cases hits : Hits (information v k) x y
  · exact cell_draw_of_hits hsquare (square_patterns v) (within_information hlow) hits
  · rw [cell_draw_of_not_hits hsquare (within_information hlow) hits,
      cell_draw_of_not_hits (square_patterns v) (within_information hlow) hits,
      cell_mapIdx (turned v k) (square_unmasked v codewords) hx hy, turned,
      cell_fixed hlow hhigh hx hy, h, if_pos rfl, cell_unmasked hlow hhigh codewords hx hy h]

theorem cell_symbolOf_of_not_function (codewords : List Nat) (k : Nat) (hx : x < width v)
    (hy : y < width v) (h : isFunction v x y = false) : cell (symbolOf v codewords k) x y =
      (cell (unmasked v codewords) x y != MASKS.getD k (fun _ _ => false) y x) := by
  have hsquare := (square_unmasked v codewords).mapIdx (turned v k)
  have hnot : ¬ Hits (information v k) x y := fun hits => by
    rw [(hits_information hlow hits).2] at h
    cases h
  rw [symbolOf_eq, cell_draw_of_not_hits hsquare (within_information hlow) hnot,
    cell_mapIdx (turned v k) (square_unmasked v codewords) hx hy, turned,
    cell_fixed hlow hhigh hx hy, h, if_neg Bool.false_ne_true]

/-- The modules for data carry the bits of the codewords. -/
theorem cell_unmasked_data {codewords : List Nat} {i : Nat} (hi : i < (dataCells v).length)
    (hbits : i < codewords.length * 8) :
    cell (unmasked v codewords) (dataCells v)[i].1 (dataCells v)[i].2 =
      codewordBit codewords i := by
  have hsize : 0 < width v := by
    rw [width]
    omega
  have hfree := free_eq hlow hhigh
  have hi' : i < (free (drawFunctionPatterns v).fixed (visited (width v))).length := by rwa [hfree]
  have hbits' : 0 + i < codewords.length * 8 := by rwa [Nat.zero_add]
  have hplace := cell_place_of_free (visited_spec hsize).1
    (s := (0, (drawFunctionPatterns v).dark)) (square_patterns v) (visited_within v) hi' hbits'
  simp only [hfree, Nat.zero_add] at hplace
  exact hplace

end Symbol

/-! ## Reading the symbol -/

theorem getD_MASKS {k : Nat} (hk : k < 8) (i j : Nat) :
    MASKS.getD k (fun _ _ => false) i j = maskBit k i j := by
  interval_cases k <;> rfl

theorem toNat_bit (bits i : Nat) : (bit bits i).toNat = (bits >>> i) &&& 1 := by
  rw [bit, Nat.and_one_is_mod]
  rcases Nat.mod_two_eq_zero_or_one (bits >>> i) with h | h
  · rw [h]
    rfl
  · rw [h]
    rfl

theorem formatCell_inj {i j : Nat} (hi : i < 15) (hj : j < 15) (h : formatCell i = formatCell j) :
    i = j := by
  have hall : ∀ i < 15, ∀ j < 15, formatCell i = formatCell j → i = j := by decide
  exact hall i hi j hj h

theorem formatCell_le {i : Nat} (hi : i < 15) : (formatCell i).1 ≤ 8 ∧ (formatCell i).2 ≤ 8 := by
  have hall : ∀ i < 15, (formatCell i).1 ≤ 8 ∧ (formatCell i).2 ≤ 8 := by decide
  exact hall i hi

theorem mem_drawFormat {mask : Nat} {c : Call} (h : c ∈ drawFormat size mask) :
    (∃ i < 15, (c.x, c.y) = formatCell i ∧ c.dark = bit (formatBits mask) i) ∨
      size - 8 ≤ c.x ∨ size - 8 ≤ c.y := by
  rw [drawFormat] at h
  rcases List.mem_append.1 h with h | h
  · obtain ⟨i, hi, h⟩ := List.mem_flatMap.1 h
    rw [List.mem_range] at hi
    rcases List.mem_pair.1 h with rfl | rfl
    · refine Or.inl ⟨i, hi, ?_⟩
      rw [formatCell]
      split_ifs <;> exact ⟨rfl, rfl⟩
    · right
      split
      · exact Or.inl (by dsimp only; omega)
      · exact Or.inr (by dsimp only; omega)
  · obtain rfl := List.mem_singleton.1 h
    exact Or.inr (Or.inr le_rfl)

theorem exists_mem_drawFormat {mask : Nat} {i : Nat} (hi : i < 15) :
    Hits (drawFormat size mask) (formatCell i).1 (formatCell i).2 := by
  rw [drawFormat, hits_append]
  left
  rw [hits_flatMap]
  refine ⟨i, List.mem_range.2 hi, _, List.mem_cons_self, ?_⟩
  rw [formatCell]
  split_ifs <;> exact ⟨rfl, rfl⟩

section Symbol

variable {v : Nat} (hlow : 1 ≤ v) (hhigh : v ≤ 10)
include hlow hhigh

theorem cell_format (codewords : List Nat) (k : Nat) {i : Nat} (hi : i < 15) :
    cell (symbolOf v codewords k) (formatCell i).1 (formatCell i).2 = bit (formatBits k) i := by
  have hsize : 21 ≤ width v := by
    rw [width]
    omega
  obtain ⟨hx, hy⟩ := formatCell_le hi
  rw [symbolOf_eq]
  refine cell_draw_of_forall ((square_unmasked v codewords).mapIdx (turned v k))
    (within_information hlow)
    (hits_append.2 (Or.inl (exists_mem_drawFormat hi))) fun c hc hcx hcy => ?_
  rcases List.mem_append.1 hc with hc | hc
  · rcases mem_drawFormat hc with ⟨j, hj, hat, hdark⟩ | hfar | hfar
    · rw [hdark, formatCell_inj hi hj (by rw [← hat, hcx, hcy])]
    · omega
    · omega
  · have hits := (hits_version hsize).1 ⟨c, hc, hcx, hcy⟩
    have hwide : 45 ≤ width v := by
      rw [width]
      omega
    omega

theorem readFormat_symbolOf (codewords : List Nat) {k : Nat} (hk : k < 8) :
    readFormat (symbolOf v codewords k) = formatBits k ^^^ 0x5412 := by
  have hlt : formatBits k < 2 ^ 15 := by interval_cases k <;> decide
  have hbits : ((List.range 15).reverse.map fun i =>
      (cell (symbolOf v codewords k) (formatCell i).1 (formatCell i).2).toNat) =
        bitsOf (formatBits k) 15 := by
    rw [bitsOf]
    refine List.map_congr_left fun i hi => ?_
    rw [cell_format hlow hhigh codewords k (List.mem_range.1 (List.mem_reverse.1 hi)), toNat_bit]
  rw [readFormat, hbits, number_bitsOf hlt]

theorem mem_dataCells {c : Nat × Nat} (h : c ∈ dataCells v) :
    (c.1 < width v ∧ c.2 < width v) ∧ isFunction v c.1 c.2 = false := by
  obtain ⟨hmem, hfunction⟩ := List.mem_filter.1 h
  rw [← visited_eq hlow hhigh] at hmem
  exact ⟨visited_within v c hmem, Bool.eq_false_of_not_eq_true fun htrue => by
    rw [htrue] at hfunction
    cases hfunction⟩

/-- The codewords are read back. -/
theorem readCodewords_symbolOf {codewords : List Nat} (hbytes : Bytes codewords)
    (hlength : codewords.length = totalCodewords v) {k : Nat} (hk : k < 8) :
    readCodewords v k (symbolOf v codewords k) = codewords := by
  have hfit := codewords_fit hlow hhigh
  have hbits : ((dataCells v).map fun c =>
      (cell (symbolOf v codewords k) c.1 c.2 != maskBit k c.2 c.1).toNat).take
        (8 * codewords.length) = written 8 codewords := by
    refine List.ext_getElem? fun i => ?_
    rw [List.getElem?_take]
    by_cases hi : i < 8 * codewords.length
    · have hcell : i < (dataCells v).length := by omega
      obtain ⟨⟨hx, hy⟩, hdata⟩ := mem_dataCells hlow hhigh (List.getElem_mem hcell)
      rw [if_pos hi, List.getElem?_map, List.getElem?_eq_getElem hcell, Option.map_some,
        getElem?_written hi, cell_symbolOf_of_not_function hlow hhigh codewords k hx hy hdata,
        cell_unmasked_data hlow hhigh hcell (by omega), getD_MASKS hk, Bool.bne_assoc,
        bne_self_eq_false, Bool.bne_false, codewordBit, toNat_bit]
      have hhigh3 : i >>> 3 = i / 8 := Nat.shiftRight_eq_div_pow i 3
      have hlow3 : i &&& 7 = i % 8 := Nat.and_two_pow_sub_one_eq_mod i 3
      rw [hhigh3, hlow3]
    · rw [if_neg hi, List.getElem?_eq_none]
      rw [length_written]
      omega
  have hsplit := List.take_append_drop (8 * codewords.length) ((dataCells v).map fun c =>
    (cell (symbolOf v codewords k) c.1 c.2 != maskBit k c.2 c.1).toNat)
  rw [hbits] at hsplit
  rw [readCodewords, ← hsplit, ← hlength]
  have hwidth : ∀ b ∈ codewords, b < 2 ^ 8 := hbytes
  exact readNumbers_written hwidth _

end Symbol

/-! ## `encodeQr` -/

/-- The best candidate is one of the candidates. -/
theorem foldl_bestStep (grid : Grid) (v : Nat) (masks : List Nat) {s : Modules × Option Nat}
    {k₀ : Nat} (h : s.1 = masked grid v k₀) :
    ∃ k, (k = k₀ ∨ k ∈ masks) ∧ (masks.foldl (bestStep grid v) s).1 = masked grid v k := by
  induction masks generalizing s k₀ with
  | nil => exact ⟨k₀, Or.inl rfl, h⟩
  | cons m masks ih =>
    have hstep : (bestStep grid v s m).1 = masked grid v m ∨
        (bestStep grid v s m).1 = masked grid v k₀ := by
      unfold bestStep
      generalize masked grid v m = candidate
      dsimp only
      split
      · exact Or.inl rfl
      · exact Or.inr h
    rw [List.foldl_cons]
    rcases hstep with hstep | hstep
    · obtain ⟨k, hk, heq⟩ := ih hstep
      refine ⟨k, Or.inr ?_, heq⟩
      rcases hk with rfl | hk
      · exact List.mem_cons_self
      · exact List.mem_cons_of_mem m hk
    · obtain ⟨k, hk, heq⟩ := ih hstep
      exact ⟨k, hk.imp_right (List.mem_cons_of_mem m), heq⟩

theorem bestStep_none (grid : Grid) (v : Nat) (rows : Modules) (m : Nat) :
    (bestStep grid v (rows, none) m).1 = masked grid v m := by
  unfold bestStep improves
  dsimp only [Option.all_none]
  rw [if_pos rfl]

theorem exists_best (grid : Grid) (v : Nat) : ∃ k < 8,
    ((List.range MASKS.length).foldl (bestStep grid v) ([], none)).1 = masked grid v k := by
  have hrange : List.range MASKS.length = 0 :: [1, 2, 3, 4, 5, 6, 7] := rfl
  have hfirst : (bestStep grid v ([], none) 0).1 = masked grid v 0 := bestStep_none grid v [] 0
  rw [hrange, List.foldl_cons]
  obtain ⟨k, hk, heq⟩ := foldl_bestStep grid v [1, 2, 3, 4, 5, 6, 7] hfirst
  refine ⟨k, ?_, heq⟩
  simp only [List.mem_cons, List.not_mem_nil, or_false] at hk
  omega

theorem maskNumber_natCast {k : Nat} (hk : k < 8) : maskNumber (.fin k) = some k := by
  have hlt : (k : ℚ) < 8 := by exact_mod_cast hk
  rw [maskNumber, if_pos ⟨Rat.den_natCast k, Nat.cast_nonneg k, hlt⟩]
  rfl

theorem utf8Bytes_lt (text : Text) : Bytes (utf8Bytes text) := by
  intro b hb
  obtain ⟨c, -, hb⟩ := List.mem_flatMap.1 hb
  obtain ⟨u, -, rfl⟩ := List.mem_map.1 hb
  exact u.toNat_lt

/-- What is returned is a symbol of the version that holds the text. -/
theorem encodeQr_ok (calls : List Nat) {text : Text} (h : (utf8Bytes text).length ≤ 213)
    (mask : Option (Fin 8)) : ∃ v k : Nat, Holds v (utf8Bytes text).length ∧ k < 8 ∧
      (∀ f ∈ mask, k = f.val) ∧
      (encodeQr (kept calls) text (mask.map fun f => .fin f.val)).1 = .ok (symbolOf v
        (interleave (kept calls) (dataCodewords (utf8Bytes text) v) v).1 k) := by
  obtain ⟨v, hv, hholds⟩ := selectVersion_holds h
  cases mask with
  | some f =>
    refine ⟨v, f, hholds, f.isLt, fun f' hf => by rw [Option.some.inj hf], ?_⟩
    unfold encodeQr
    rw [Option.map_some, Option.bind_some, maskNumber_natCast f.isLt]
    dsimp only
    rw [hv]
    dsimp only [drawn, symbolOf]
  | none =>
    obtain ⟨k, hk, heq⟩ := exists_best (drawn (kept calls) (utf8Bytes text) v).1 v
    refine ⟨v, k, hholds, hk, fun f hf => absurd hf (Option.not_mem_none f), ?_⟩
    unfold encodeQr
    rw [Option.map_none, Option.bind_none]
    dsimp only
    rw [hv]
    dsimp only [drawn, symbolOf] at heq ⊢
    rw [heq]

/-- A symbol of the text reads back: the bytes are those of the text, each block is a codeword of
the generator, and the function modules are the patterns of the version and the mask. -/
theorem encodeQr_reads (calls : List Nat) (text : Text) (h : (utf8Bytes text).length ≤ 213)
    (mask : Option (Fin 8)) : ∃ (rows : Modules) (symbol : Symbol),
      (encodeQr (kept calls) text (mask.map fun f => .fin f.val)).1 = .ok rows ∧
      readSymbol rows = some symbol ∧ (∀ f ∈ mask, symbol.mask = f.val) ∧
      symbol.bytes = utf8Bytes text ∧
      (∀ block ∈ symbol.blocks, block.2.length = (blockTable symbol.version).1 ∧
        (∏ i ∈ Finset.range block.2.length, (Polynomial.X - Polynomial.C (alpha ^ i))) ∣
          poly (block.1 ++ block.2)) ∧
      ∀ x < width symbol.version, ∀ y < width symbol.version,
        isFunction symbol.version x y = true →
          cell rows x y = cell (functionPatterns symbol.version symbol.mask) x y := by
  obtain ⟨v, k, hholds, hk, hmask, hrows⟩ := encodeQr_ok calls h mask
  have hdata := dataCodewords_lt hholds
  have hlength := length_dataCodewords hholds
  obtain ⟨htable, hsum, hec, hec512⟩ := hholds.blockTable_eq
  obtain ⟨hbytes, htotal⟩ := interleave_spec calls hdata hholds hlength
  set codewords := (interleave (kept calls) (dataCodewords (utf8Bytes text) v) v).1 with hcodewords
  have hsquare := square_symbolOf v codewords k
  have hversion : ((symbolOf v codewords k).length - 17) / 4 = v := by
    rw [hsquare.height, width]
    omega
  have hlevel : (formatBits k ^^^ 0x5412) / 2 ^ 13 = EC_LEVEL_M_BITS := by
    interval_cases k <;> decide
  have hread : (formatBits k ^^^ 0x5412) / 2 ^ 10 % 8 = k := by
    interval_cases k <;> decide
  have hblocks := readBlocks_interleave calls hdata hholds hlength
  have hflat : ((blocksOf (dataCodewords (utf8Bytes text) v) (blockLengths v) 0).map fun block =>
      (block, checkOf (layout v).ec block)).flatMap (·.1) = dataCodewords (utf8Bytes text) v := by
    have hsum' := flatten_blocksOf (dataCodewords (utf8Bytes text) v) (blockLengths v) 0
    rw [hsum, ← hlength, List.drop_zero, List.take_length] at hsum'
    rw [List.flatMap_map, List.flatMap_id', hsum']
  refine ⟨_, ⟨v, EC_LEVEL_M_BITS, k, (blocksOf (dataCodewords (utf8Bytes text) v)
    (blockLengths v) 0).map fun block => (block, checkOf (layout v).ec block), utf8Bytes text⟩,
    hrows, ?_, hmask, rfl, ?_, ?_⟩
  · rw [readSymbol, hversion, readFormat_symbolOf hholds.low hholds.high codewords hk, hlevel,
      hread, readCodewords_symbolOf hholds.low hholds.high hbytes htotal hk, hblocks, hflat,
      readBytes_dataCodewords (utf8Bytes_lt text) hholds, if_pos ⟨hsquare.height, rfl⟩]
    rfl
  · intro block hblock
    obtain ⟨data, hmem, rfl⟩ := List.mem_map.1 hblock
    have hbytes : Bytes data := fun w hw => hdata w (mem_of_mem_blocksOf hmem hw)
    dsimp only
    rw [(checkOf_spec hec hbytes).2, htable]
    exact ⟨rfl, dvd_checkOf hec hec512 hbytes⟩
  · intro x hx y hy hfunction
    exact cell_symbolOf_of_function hholds.low hholds.high codewords k hx hy hfunction

theorem encodeQr_reads_hi : ∃ (rows : Modules) (symbol : Symbol),
      (encodeQr (kept []) [0x68, 0x69] ((none : Option (Fin 8)).map fun f => .fin f.val)).1 =
        .ok rows ∧
      readSymbol rows = some symbol ∧ (∀ f ∈ (none : Option (Fin 8)), symbol.mask = f.val) ∧
      symbol.bytes = utf8Bytes [0x68, 0x69] ∧
      (∀ block ∈ symbol.blocks, block.2.length = (blockTable symbol.version).1 ∧
        (∏ i ∈ Finset.range block.2.length, (Polynomial.X - Polynomial.C (alpha ^ i))) ∣
          poly (block.1 ++ block.2)) ∧
      ∀ x < width symbol.version, ∀ y < width symbol.version,
        isFunction symbol.version x y = true →
          cell rows x y = cell (functionPatterns symbol.version symbol.mask) x y :=
  encodeQr_reads [] [0x68, 0x69] (by decide) none

end Konnekt.Qr

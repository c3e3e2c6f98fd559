import Konnekt.Correctness.QrCodewords
import Mathlib

/-!
# The modules of a symbol

What `drawFunctionPatterns` sets are the function modules of the standard, and `placeCodewords`
fills the other ones, in the order of the standard. There are enough of them: the function
modules fit in rectangles of a small total area.
-/

namespace Konnekt.Qr

/-! ## Modules -/

/-- A matrix of so many rows and columns. -/
structure Square (size : Nat) (rows : Modules) : Prop where
  height : rows.length = size
  width : ∀ row ∈ rows, row.length = size

variable {size x y : Nat} {rows rows' : Modules} {calls : List Call}

theorem square_blank (size : Nat) : Square size (blank size) where
  height := List.length_replicate
  width row hrow := by
    rw [List.eq_of_mem_replicate hrow]
    exact List.length_replicate

theorem Square.write (h : Square size rows) (x y : Nat) (value : Bool) :
    Square size (write rows x y value) where
  height := (List.length_modify _ _ _).trans h.height
  width row hrow := by
    obtain ⟨j, hj⟩ := List.getElem?_of_mem hrow
    rw [Qr.write, List.getElem?_modify] at hj
    obtain ⟨old, hold, rfl⟩ := Option.map_eq_some_iff.1 hj
    have hlength := h.width old (List.mem_of_getElem? hold)
    split
    · rw [List.length_set, hlength]
    · exact hlength

theorem Square.exists_row (h : Square size rows) (hy : y < size) :
    ∃ row, rows[y]? = some row ∧ row.length = size := by
  have hlt : y < rows.length := h.height ▸ hy
  exact ⟨rows[y], List.getElem?_eq_getElem hlt, h.width _ (List.getElem_mem hlt)⟩

theorem cell_eq (rows : Modules) (x y : Nat) :
    cell rows x y = ((rows[y]?.bind (·[x]?)).getD false) := by
  rw [cell, List.getD_eq_getElem?_getD, List.getD_eq_getElem?_getD]
  cases rows[y]? with
  | none => rfl
  | some row => rfl

theorem cell_write (h : Square size rows) (hx : x < size) (hy : y < size) (x' y' : Nat)
    (value : Bool) : cell (write rows x y value) x' y' =
      if x' = x ∧ y' = y then value else cell rows x' y' := by
  rw [cell_eq, cell_eq, Qr.write, List.getElem?_modify]
  by_cases hyy : y' = y
  · subst hyy
    obtain ⟨row, hrow, hwidth⟩ := h.exists_row hy
    have hlength : x < row.length := by rwa [hwidth]
    rw [hrow, Option.map_eq_map, Option.map_some, if_pos rfl, Option.bind_some, Option.bind_some,
      List.getElem?_set]
    by_cases hxx : x' = x
    · subst hxx
      rw [if_pos rfl, if_pos hlength, if_pos ⟨rfl, rfl⟩, Option.getD_some]
    · rw [if_neg (Ne.symm hxx), if_neg fun heq => hxx heq.1]
  · rw [if_neg fun heq => hyy heq.2]
    cases rows[y']? with
    | none => rfl
    | some row => rw [Option.map_eq_map, Option.map_some, if_neg (Ne.symm hyy)]

theorem cell_blank (size x y : Nat) : cell (blank size) x y = false := by
  rw [cell_eq, blank, List.getElem?_replicate]
  split
  · rw [Option.bind_some, List.getElem?_replicate]
    split <;> rfl
  · rfl

/-! ### Drawing -/

/-- The modules after the calls. -/
def draw (rows : Modules) (calls : List Call) : Modules :=
  calls.foldl (fun rows call => write rows call.x call.y call.dark) rows

/-- Some call sets the module. -/
def Hits (calls : List Call) (x y : Nat) : Prop := ∃ c ∈ calls, c.x = x ∧ c.y = y

/-- All calls stay inside the matrix. -/
def Within (size : Nat) (calls : List Call) : Prop := ∀ c ∈ calls, c.x < size ∧ c.y < size

theorem hits_append {cs ds : List Call} : Hits (cs ++ ds) x y ↔ Hits cs x y ∨ Hits ds x y := by
  constructor
  · rintro ⟨c, hc, hat⟩
    exact (List.mem_append.1 hc).imp (fun hc => ⟨c, hc, hat⟩) fun hc => ⟨c, hc, hat⟩
  · rintro (⟨c, hc, hat⟩ | ⟨c, hc, hat⟩)
    · exact ⟨c, List.mem_append_left ds hc, hat⟩
    · exact ⟨c, List.mem_append_right cs hc, hat⟩

theorem hits_flatMap {α : Type*} {l : List α} {f : α → List Call} :
    Hits (l.flatMap f) x y ↔ ∃ a ∈ l, Hits (f a) x y := by
  constructor
  · rintro ⟨c, hc, hat⟩
    obtain ⟨a, ha, hc⟩ := List.mem_flatMap.1 hc
    exact ⟨a, ha, c, hc, hat⟩
  · rintro ⟨a, ha, c, hc, hat⟩
    exact ⟨c, List.mem_flatMap.2 ⟨a, ha, hc⟩, hat⟩

theorem Square.draw (h : Square size rows) (calls : List Call) : Square size (draw rows calls) := by
  induction calls generalizing rows with
  | nil => exact h
  | cons c calls ih => exact ih (h.write c.x c.y c.dark)

theorem cell_draw_of_not_hits (h : Square size rows) (hcalls : Within size calls)
    (hnot : ¬ Hits calls x y) : cell (draw rows calls) x y = cell rows x y := by
  induction calls generalizing rows with
  | nil => rfl
  | cons c calls ih =>
    have hc := hcalls c List.mem_cons_self
    have hrest := ih (h.write c.x c.y c.dark)
      (fun d hd => hcalls d (List.mem_cons_of_mem c hd))
      fun ⟨d, hd, hat⟩ => hnot ⟨d, List.mem_cons_of_mem c hd, hat⟩
    rw [draw, List.foldl_cons, ← draw, hrest, cell_write h hc.1 hc.2, if_neg]
    exact fun hat => hnot ⟨c, List.mem_cons_self, hat.1.symm, hat.2.symm⟩

/-- What a module is set to does not depend on what was there. -/
theorem cell_draw_of_hits (h : Square size rows) (h' : Square size rows')
    (hcalls : Within size calls) (hhits : Hits calls x y) :
    cell (draw rows calls) x y = cell (draw rows' calls) x y := by
  induction calls generalizing rows rows' with
  | nil =>
    obtain ⟨c, hc, -⟩ := hhits
    exact absurd hc List.not_mem_nil
  | cons c calls ih =>
    have hc := hcalls c List.mem_cons_self
    have hrest : Within size calls := fun d hd => hcalls d (List.mem_cons_of_mem c hd)
    have hw := h.write c.x c.y c.dark
    have hw' := h'.write c.x c.y c.dark
    rw [draw, draw, List.foldl_cons, List.foldl_cons, ← draw, ← draw]
    by_cases hlater : Hits calls x y
    · exact ih hw hw' hrest hlater
    · have hat : x = c.x ∧ y = c.y := by
        obtain ⟨d, hd, hat⟩ := hhits
        rcases List.mem_cons.1 hd with rfl | hd
        · exact ⟨hat.1.symm, hat.2.symm⟩
        · exact absurd ⟨d, hd, hat⟩ hlater
      rw [cell_draw_of_not_hits hw hrest hlater, cell_draw_of_not_hits hw' hrest hlater,
        cell_write h hc.1 hc.2, cell_write h' hc.1 hc.2, if_pos hat, if_pos hat]

/-- The calls, each of them setting a module dark: what they mark. -/
def marks (calls : List Call) : List Call := calls.map fun c => { c with dark := true }

theorem foldl_set (calls : List Call) (grid : Grid) : calls.foldl Grid.set grid =
    ⟨grid.size, draw grid.dark calls, draw grid.fixed (marks calls)⟩ := by
  induction calls generalizing grid with
  | nil => rfl
  | cons c calls ih =>
    rw [List.foldl_cons, ih]
    rfl

/-- A module is marked exactly if it was or a call sets it. -/
theorem cell_marks (h : Square size rows) (hcalls : Within size calls) :
    cell (draw rows (marks calls)) x y = true ↔ cell rows x y = true ∨ Hits calls x y := by
  induction calls generalizing rows with
  | nil => exact ⟨Or.inl, fun h => h.resolve_right fun ⟨_, hc, _⟩ => absurd hc List.not_mem_nil⟩
  | cons c calls ih =>
    have hc := hcalls c List.mem_cons_self
    have hrest : Within size calls := fun d hd => hcalls d (List.mem_cons_of_mem c hd)
    have hcons : Hits (c :: calls) x y ↔ (x = c.x ∧ y = c.y) ∨ Hits calls x y := by
      rw [← List.singleton_append, hits_append]
      refine or_congr_left ⟨fun ⟨d, hd, hat⟩ => ?_, fun hat => ⟨c, List.mem_cons_self,
        hat.1.symm, hat.2.symm⟩⟩
      rw [List.mem_singleton] at hd
      subst hd
      exact ⟨hat.1.symm, hat.2.symm⟩
    have hstep : draw rows (marks (c :: calls)) = draw (write rows c.x c.y true) (marks calls) :=
      rfl
    rw [hstep, ih (h.write c.x c.y true) hrest, cell_write h hc.1 hc.2, hcons]
    by_cases hat : x = c.x ∧ y = c.y
    · rw [if_pos hat]
      exact iff_of_true (Or.inl rfl) (Or.inr (Or.inl hat))
    · rw [if_neg hat, or_iff_right hat]

/-! ### Placing the codewords -/

variable {fixed : Modules} {codewords : List Nat}

/-- Bit `i` of the codewords, each with its highest bit first. -/
def codewordBit (codewords : List Nat) (i : Nat) : Bool :=
  bit (codewords.getD (i >>> 3) 0) (7 - (i &&& 7))

/-- The modules of a list that are free for data, in their order. -/
def free (fixed : Modules) (cells : List (Nat × Nat)) : List (Nat × Nat) :=
  cells.filter fun c => !cell fixed c.1 c.2

theorem Square.placeStep {s : Nat × Modules} (h : Square size s.2) (c : Nat × Nat) :
    Square size (placeStep fixed codewords s c).2 := by
  unfold Qr.placeStep
  split
  · exact h
  · exact h.write c.1 c.2 _

theorem Square.place {cells : List (Nat × Nat)} {s : Nat × Modules} (h : Square size s.2) :
    Square size (cells.foldl (Qr.placeStep fixed codewords) s).2 := by
  induction cells generalizing s with
  | nil => exact h
  | cons c cells ih => exact ih (h.placeStep c)

/-- A module that is not visited, or is a function module, stays. -/
theorem cell_place_of_not_free {cells : List (Nat × Nat)} {s : Nat × Modules}
    (h : Square size s.2) (hcells : ∀ c ∈ cells, c.1 < size ∧ c.2 < size)
    (hnot : (x, y) ∉ free fixed cells) :
    cell (cells.foldl (placeStep fixed codewords) s).2 x y = cell s.2 x y := by
  induction cells generalizing s with
  | nil => rfl
  | cons c cells ih =>
    have hc := hcells c List.mem_cons_self
    have hrest : (x, y) ∉ free fixed cells := fun hmem => hnot (by
      rw [free, List.filter_cons]
      split
      · exact List.mem_cons_of_mem c hmem
      · exact hmem)
    rw [List.foldl_cons,
      ih (h.placeStep c) (fun d hd => hcells d (List.mem_cons_of_mem c hd)) hrest]
    unfold placeStep
    by_cases hskip : cell fixed c.1 c.2 = true ∨ codewords.length * 8 ≤ s.1
    · rw [if_pos hskip]
    · rw [if_neg hskip, cell_write h hc.1 hc.2, if_neg]
      rintro ⟨rfl, rfl⟩
      rw [not_or] at hskip
      refine hnot (List.mem_filter.2 ⟨List.mem_cons_self, ?_⟩)
      rw [Bool.eq_false_of_not_eq_true hskip.1]
      rfl

/-- The free modules carry the bits of the codewords, in the order they are visited. -/
theorem cell_place_of_free {cells : List (Nat × Nat)} (hnodup : cells.Nodup) {s : Nat × Modules}
    (h : Square size s.2) (hcells : ∀ c ∈ cells, c.1 < size ∧ c.2 < size) {k : Nat}
    (hk : k < (free fixed cells).length) (hbits : s.1 + k < codewords.length * 8) :
    cell (cells.foldl (placeStep fixed codewords) s).2 (free fixed cells)[k].1
      (free fixed cells)[k].2 = codewordBit codewords (s.1 + k) := by
  induction cells generalizing s k with
  | nil => exact absurd hk (Nat.not_lt_zero k)
  | cons c cells ih =>
    have hc := hcells c List.mem_cons_self
    have hrest : ∀ d ∈ cells, d.1 < size ∧ d.2 < size :=
      fun d hd => hcells d (List.mem_cons_of_mem c hd)
    obtain ⟨hfresh, hnodup⟩ := List.nodup_cons.1 hnodup
    rw [List.foldl_cons]
    by_cases hfixed : cell fixed c.1 c.2 = true
    · have hfree : free fixed (c :: cells) = free fixed cells :=
        List.filter_cons_of_neg (by rw [hfixed]; decide)
      have hstep : placeStep fixed codewords s c = s := if_pos (Or.inl hfixed)
      simp only [hfree] at hk ⊢
      rw [hstep]
      exact ih hnodup h hrest hk hbits
    · have hfree : free fixed (c :: cells) = c :: free fixed cells :=
        List.filter_cons_of_pos (by rw [Bool.eq_false_of_not_eq_true hfixed]; rfl)
      have hstep : placeStep fixed codewords s c =
          (s.1 + 1, write s.2 c.1 c.2 (codewordBit codewords s.1)) :=
        if_neg (not_or.2 ⟨hfixed, Nat.not_le.2 (by omega)⟩)
      simp only [hfree] at hk ⊢
      rw [hstep]
      cases k with
      | zero =>
        have hnot : (c.1, c.2) ∉ free fixed cells := fun hmem => hfresh (List.mem_filter.1 hmem).1
        rw [List.getElem_cons_zero, cell_place_of_not_free (h.write c.1 c.2 _) hrest hnot,
          cell_write h hc.1 hc.2, if_pos ⟨rfl, rfl⟩]
        rfl
      | succ k =>
        rw [List.length_cons] at hk
        have hnext := ih hnodup (s := (s.1 + 1, write s.2 c.1 c.2 (codewordBit codewords s.1)))
          (h.write c.1 c.2 _) hrest (Nat.lt_of_succ_lt_succ hk) (by omega)
        rw [List.getElem_cons_succ, hnext]
        congr 1
        omega

/-! ### Masking -/

theorem cell_mapIdx (f : Nat → Nat → Bool → Bool) (h : Square size rows) (hx : x < size)
    (hy : y < size) : cell (rows.mapIdx fun y row => row.mapIdx fun x dark => f x y dark) x y =
      f x y (cell rows x y) := by
  obtain ⟨row, hrow, hwidth⟩ := h.exists_row hy
  have hlt : x < row.length := by rwa [hwidth]
  have hcell : row[x]? = some row[x] := List.getElem?_eq_getElem hlt
  rw [cell_eq, cell_eq, List.getElem?_mapIdx, hrow, Option.map_some, Option.bind_some,
    Option.bind_some, List.getElem?_mapIdx, hcell, Option.map_some, Option.getD_some,
    Option.getD_some]

theorem Square.mapIdx (f : Nat → Nat → Bool → Bool) (h : Square size rows) :
    Square size (rows.mapIdx fun y row => row.mapIdx fun x dark => f x y dark) where
  height := List.length_mapIdx.trans h.height
  width row hrow := by
    obtain ⟨j, hj⟩ := List.getElem?_of_mem hrow
    rw [List.getElem?_mapIdx] at hj
    obtain ⟨old, hold, rfl⟩ := Option.map_eq_some_iff.1 hj
    rw [List.length_mapIdx, h.width old (List.mem_of_getElem? hold)]

/-! ## Function modules -/

theorem mem_offsets {r : Nat} {d : Int} : d ∈ offsets r ↔ -(r : Int) ≤ d ∧ d ≤ r := by
  rw [offsets, List.mem_map]
  constructor
  · rintro ⟨k, hk, rfl⟩
    rw [List.mem_range] at hk
    omega
  · rintro ⟨hlow, hhigh⟩
    exact ⟨(d + r).toNat, List.mem_range.2 (by omega), by omega⟩

theorem hits_timing : Hits (drawTiming size) x y ↔ (x = 6 ∧ y < size) ∨ (y = 6 ∧ x < size) := by
  rw [drawTiming, hits_flatMap]
  constructor
  · rintro ⟨i, hi, c, hc, rfl, rfl⟩
    rw [List.mem_range] at hi
    rcases List.mem_pair.1 hc with rfl | rfl
    · exact Or.inl ⟨rfl, hi⟩
    · exact Or.inr ⟨rfl, hi⟩
  · rintro (⟨rfl, hy⟩ | ⟨rfl, hx⟩)
    · exact ⟨y, List.mem_range.2 hy, _, List.mem_cons_self, rfl, rfl⟩
    · exact ⟨x, List.mem_range.2 hx, _, List.mem_cons_of_mem _ List.mem_cons_self, rfl, rfl⟩

theorem hits_finder {cx cy : Nat} : Hits (drawFinder size cx cy) x y ↔
    (x < size ∧ y < size) ∧ (x ≤ cx + 4 ∧ cx ≤ x + 4) ∧ (y ≤ cy + 4 ∧ cy ≤ y + 4) := by
  rw [drawFinder, hits_flatMap]
  constructor
  · rintro ⟨dy, hdy, c, hc, rfl, rfl⟩
    obtain ⟨dx, hdx, hc⟩ := List.mem_filterMap.1 hc
    rw [mem_offsets] at hdx hdy
    dsimp only at hc
    split at hc
    · cases hc
    · next hin =>
      obtain rfl := Option.some.inj hc
      dsimp only
      omega
  · rintro ⟨⟨hx, hy⟩, hnearx, hneary⟩
    refine ⟨(y : Int) - cy, mem_offsets.2 (by omega), _,
      List.mem_filterMap.2 ⟨(x : Int) - cx, mem_offsets.2 (by omega), if_neg ?_⟩, ?_, ?_⟩
    · omega
    · dsimp only
      omega
    · dsimp only
      omega

theorem hits_alignment {cx cy : Nat} (hcx : 2 ≤ cx) (hcy : 2 ≤ cy) :
    Hits (drawAlignment cx cy) x y ↔ (x ≤ cx + 2 ∧ cx ≤ x + 2) ∧ (y ≤ cy + 2 ∧ cy ≤ y + 2) := by
  rw [drawAlignment, hits_flatMap]
  constructor
  · rintro ⟨dy, hdy, c, hc, rfl, rfl⟩
    obtain ⟨dx, hdx, rfl⟩ := List.mem_map.1 hc
    rw [mem_offsets] at hdx hdy
    dsimp only
    omega
  · rintro ⟨hnearx, hneary⟩
    refine ⟨(y : Int) - cy, mem_offsets.2 (by omega), _,
      List.mem_map.2 ⟨(x : Int) - cx, mem_offsets.2 (by omega), rfl⟩, ?_, ?_⟩
    · dsimp only
      omega
    · dsimp only
      omega

theorem hits_format {mask : Nat} (hsize : 21 ≤ size) : Hits (drawFormat size mask) x y ↔
    (x = 8 ∧ (y ≤ 8 ∧ y ≠ 6 ∨ size - 8 ≤ y ∧ y < size)) ∨
      (y = 8 ∧ (x ≤ 8 ∧ x ≠ 6 ∨ size - 8 ≤ x ∧ x < size)) := by
  rw [drawFormat, hits_append, hits_flatMap]
  constructor
  · rintro (⟨i, hi, c, hc, rfl, rfl⟩ | ⟨c, hc, rfl, rfl⟩)
    · rw [List.mem_range] at hi
      rcases List.mem_pair.1 hc with rfl | rfl
      · split_ifs <;> dsimp only <;> omega
      · split_ifs <;> dsimp only <;> omega
    · obtain rfl := List.mem_singleton.1 hc
      dsimp only
      omega
  · rintro (⟨rfl, ⟨hy, hne⟩ | ⟨hlow, hhigh⟩⟩ | ⟨rfl, ⟨hx, hne⟩ | ⟨hlow, hhigh⟩⟩)
    · obtain hy | rfl | rfl : y ≤ 5 ∨ y = 7 ∨ y = 8 := by omega
      · exact Or.inl ⟨y, List.mem_range.2 (by omega), _, List.mem_cons_self, by rw [if_pos hy],
          by rw [if_pos hy]⟩
      · exact Or.inl ⟨6, by decide, _, List.mem_cons_self, rfl, rfl⟩
      · exact Or.inl ⟨7, by decide, _, List.mem_cons_self, rfl, rfl⟩
    · by_cases hlast : y = size - 8
      · exact Or.inr ⟨_, List.mem_cons_self, rfl, hlast.symm⟩
      · have hi : ¬ y + 15 - size ≤ 7 := by omega
        refine Or.inl ⟨y + 15 - size, List.mem_range.2 (by omega), _,
          List.mem_cons_of_mem _ List.mem_cons_self, by rw [if_neg hi], ?_⟩
        rw [if_neg hi]
        dsimp only
        omega
    · obtain rfl | rfl | hx : x = 8 ∨ x = 7 ∨ x ≤ 5 := by omega
      · exact Or.inl ⟨7, by decide, _, List.mem_cons_self, rfl, rfl⟩
      · exact Or.inl ⟨8, by decide, _, List.mem_cons_self, rfl, rfl⟩
      · have h5 : ¬ 14 - x ≤ 5 := by omega
        have h6 : ¬ 14 - x = 6 := by omega
        have h7 : ¬ 14 - x = 7 := by omega
        have h8 : ¬ 14 - x = 8 := by omega
        refine Or.inl ⟨14 - x, List.mem_range.2 (by omega), _, List.mem_cons_self, ?_, ?_⟩
        · rw [if_neg h5, if_neg h6, if_neg h7, if_neg h8]
          dsimp only
          omega
        · rw [if_neg h5, if_neg h6, if_neg h7, if_neg h8]
    · have hi : size - 1 - x ≤ 7 := by omega
      refine Or.inl ⟨size - 1 - x, List.mem_range.2 (by omega), _,
        List.mem_cons_of_mem _ List.mem_cons_self, ?_, by rw [if_pos hi]⟩
      rw [if_pos hi]
      dsimp only
      omega

theorem hits_version {v : Nat} (hsize : 21 ≤ size) : Hits (drawVersion v size) x y ↔
    7 ≤ v ∧ ((size - 11 ≤ x ∧ x ≤ size - 9 ∧ y ≤ 5) ∨ (size - 11 ≤ y ∧ y ≤ size - 9 ∧ x ≤ 5)) := by
  rw [drawVersion]
  split
  · next hlow =>
    exact iff_of_false (fun ⟨_, hc, _⟩ => absurd hc List.not_mem_nil) fun h => by omega
  · next hhigh =>
    rw [hits_flatMap]
    constructor
    · rintro ⟨i, hi, c, hc, rfl, rfl⟩
      rw [List.mem_range] at hi
      rcases List.mem_pair.1 hc with rfl | rfl
      · dsimp only
        omega
      · dsimp only
        omega
    · rintro ⟨-, ⟨hlow, hhigh, hy⟩ | ⟨hlow, hhigh, hx⟩⟩
      · refine ⟨3 * y + (x - (size - 11)), List.mem_range.2 (by omega), _,
          List.mem_cons_self, ?_, ?_⟩
        · dsimp only
          omega
        · dsimp only
          omega
      · refine ⟨3 * x + (y - (size - 11)), List.mem_range.2 (by omega), _,
          List.mem_cons_of_mem _ List.mem_cons_self, ?_, ?_⟩
        · dsimp only
          omega
        · dsimp only
          omega

theorem alignmentPairs_eq {v : Nat} (hlow : 1 ≤ v) (hhigh : v ≤ 10) :
    alignmentPairs v = alignmentSquares v ∧
      ∀ c ∈ alignmentSquares v, (2 ≤ c.1 ∧ c.1 + 2 < width v) ∧ (2 ≤ c.2 ∧ c.2 + 2 < width v) := by
  interval_cases v <;> decide

/-- Whether a module belongs to an alignment pattern. -/
def Aligned (version x y : Nat) : Prop :=
  ∃ c ∈ alignmentSquares version, (x ≤ c.1 + 2 ∧ c.1 ≤ x + 2) ∧ (y ≤ c.2 + 2 ∧ c.2 ≤ y + 2)

theorem isFunction_iff {v : Nat} : isFunction v x y = true ↔
    x = 6 ∨ y = 6 ∨ (x ≤ 8 ∧ y ≤ 8) ∨ (width v - 8 ≤ x ∧ y ≤ 8) ∨ (x ≤ 8 ∧ width v - 8 ≤ y) ∨
      Aligned v x y ∨ (7 ≤ v ∧ (width v - 11 ≤ x ∧ x ≤ width v - 9) ∧ y ≤ 5) ∨
      (7 ≤ v ∧ x ≤ 5 ∧ width v - 11 ≤ y ∧ y ≤ width v - 9) := by
  simp only [isFunction, Aligned, Bool.or_eq_true, Bool.and_eq_true, beq_iff_eq, decide_eq_true_eq,
    List.any_eq_true, or_assoc, and_or_left]

theorem aligned_iff {v : Nat} (hlow : 1 ≤ v) (hhigh : v ≤ 10) : Aligned v x y ↔
    ∃ c ∈ alignmentPairs v, Hits (drawAlignment c.1 c.2) x y := by
  obtain ⟨hpairs, hinside⟩ := alignmentPairs_eq hlow hhigh
  rw [Aligned, hpairs]
  refine exists_congr fun c => and_congr_right fun hc => ?_
  obtain ⟨hcx, hcy⟩ := hinside c hc
  rw [hits_alignment hcx.1 hcy.1]

theorem Aligned.inside {v : Nat} (hlow : 1 ≤ v) (hhigh : v ≤ 10) (h : Aligned v x y) :
    x < width v ∧ y < width v := by
  obtain ⟨c, hc, hx, hy⟩ := h
  obtain ⟨hcx, hcy⟩ := (alignmentPairs_eq hlow hhigh).2 c hc
  omega

/-- The format and the version information. -/
def information (v k : Nat) : List Call := drawFormat (width v) k ++ drawVersion v (width v)

theorem functionCalls_eq (v : Nat) : functionCalls v (width v) = drawTiming (width v) ++
    (drawFinder (width v) 3 3 ++ drawFinder (width v) (width v - 4) 3 ++
      drawFinder (width v) 3 (width v - 4)) ++
    (alignmentPairs v).flatMap (fun c => drawAlignment c.1 c.2) ++ information v 0 := by
  rw [functionCalls, information, List.append_assoc]

theorem within_of_hits (h : ∀ x y, Hits calls x y → x < size ∧ y < size) : Within size calls :=
  fun c hc => h c.x c.y ⟨c, hc, rfl, rfl⟩

theorem width_le {v : Nat} (hlow : 1 ≤ v) : 21 ≤ width v := by
  rw [width]
  omega

theorem hits_information {v k : Nat} (hlow : 1 ≤ v) (hits : Hits (information v k) x y) :
    (x < width v ∧ y < width v) ∧ isFunction v x y = true := by
  have hsize := width_le hlow
  rw [information, hits_append, hits_format hsize, hits_version hsize] at hits
  rw [isFunction_iff]
  rcases hits with (⟨rfl, h | h⟩ | ⟨rfl, h | h⟩) | ⟨hseven, h | h⟩
  · exact ⟨by omega, Or.inr (Or.inr (Or.inl ⟨le_rfl, h.1⟩))⟩
  · exact ⟨by omega, Or.inr (Or.inr (Or.inr (Or.inr (Or.inl ⟨le_rfl, h.1⟩))))⟩
  · exact ⟨by omega, Or.inr (Or.inr (Or.inl ⟨h.1, le_rfl⟩))⟩
  · exact ⟨by omega, Or.inr (Or.inr (Or.inr (Or.inl ⟨h.1, le_rfl⟩)))⟩
  · exact ⟨by omega, Or.inr (Or.inr (Or.inr (Or.inr (Or.inr (Or.inr (Or.inl
      ⟨hseven, ⟨h.1, h.2.1⟩, h.2.2⟩))))))⟩
  · exact ⟨by omega, Or.inr (Or.inr (Or.inr (Or.inr (Or.inr (Or.inr (Or.inr
      ⟨hseven, h.2.2, h.1, h.2.1⟩))))))⟩

/-- The finders and the format information fill the corners, up to the timing patterns. -/
theorem hits_corner {v : Nat} (hlow : 1 ≤ v) (hin : x < width v ∧ y < width v) (hx : x ≠ 6)
    (hy : y ≠ 6) (h : (x ≤ 8 ∧ y ≤ 8) ∨ (width v - 8 ≤ x ∧ y ≤ 8) ∨ (x ≤ 8 ∧ width v - 8 ≤ y)) :
    Hits (drawFinder (width v) 3 3 ++ drawFinder (width v) (width v - 4) 3 ++
      drawFinder (width v) 3 (width v - 4)) x y ∨ Hits (information v 0) x y := by
  have hsize := width_le hlow
  rw [information, hits_append, hits_append, hits_append, hits_finder, hits_finder, hits_finder,
    hits_format hsize]
  by_cases hcolumn : x = 8
  · exact Or.inr (Or.inl (Or.inl ⟨hcolumn, by omega⟩))
  by_cases hrow : y = 8
  · exact Or.inr (Or.inl (Or.inr ⟨hrow, by omega⟩))
  left
  rcases h with h | h | h
  · exact Or.inl (Or.inl ⟨hin, by omega, by omega⟩)
  · exact Or.inl (Or.inr ⟨hin, by omega, by omega⟩)
  · exact Or.inr ⟨hin, by omega, by omega⟩

theorem isFunction_of_finder {v : Nat} (hlow : 1 ≤ v)
    (hits : Hits (drawFinder (width v) 3 3 ++ drawFinder (width v) (width v - 4) 3 ++
      drawFinder (width v) 3 (width v - 4)) x y) :
    (x < width v ∧ y < width v) ∧ isFunction v x y = true := by
  have hsize := width_le hlow
  rw [hits_append, hits_append, hits_finder, hits_finder, hits_finder] at hits
  rw [isFunction_iff]
  rcases hits with (⟨hin, hx, hy⟩ | ⟨hin, hx, hy⟩) | ⟨hin, hx, hy⟩
  · exact ⟨hin, Or.inr (Or.inr (Or.inl (by omega)))⟩
  · exact ⟨hin, Or.inr (Or.inr (Or.inr (Or.inl (by omega))))⟩
  · exact ⟨hin, Or.inr (Or.inr (Or.inr (Or.inr (Or.inl (by omega)))))⟩

/-- The modules that `drawFunctionPatterns` sets are the function modules of the symbol. -/
theorem hits_functionCalls {v : Nat} (hlow : 1 ≤ v) (hhigh : v ≤ 10) :
    Hits (functionCalls v (width v)) x y ↔
      (x < width v ∧ y < width v) ∧ isFunction v x y = true := by
  have hsize := width_le hlow
  rw [functionCalls_eq, hits_append, hits_append, hits_append, hits_flatMap,
    ← aligned_iff hlow hhigh, hits_timing]
  constructor
  · rintro ((((⟨hx, hy⟩ | ⟨hy, hx⟩) | h) | h) | h)
    · exact ⟨⟨by omega, hy⟩, isFunction_iff.2 (Or.inl hx)⟩
    · exact ⟨⟨hx, by omega⟩, isFunction_iff.2 (Or.inr (Or.inl hy))⟩
    · exact isFunction_of_finder hlow h
    · exact ⟨h.inside hlow hhigh,
        isFunction_iff.2 (Or.inr (Or.inr (Or.inr (Or.inr (Or.inr (Or.inl h))))))⟩
    · exact hits_information hlow h
  · rintro ⟨hin, h⟩
    by_cases hx : x = 6
    · exact Or.inl (Or.inl (Or.inl (Or.inl ⟨hx, hin.2⟩)))
    by_cases hy : y = 6
    · exact Or.inl (Or.inl (Or.inl (Or.inr ⟨hy, hin.1⟩)))
    have hcorner := hits_corner hlow hin hx hy
    rcases isFunction_iff.1 h with h | h | h | h | h | h | ⟨hseven, h⟩ | ⟨hseven, h⟩
    · exact absurd h hx
    · exact absurd h hy
    · exact (hcorner (Or.inl h)).elim (fun h => Or.inl (Or.inl (Or.inr h))) Or.inr
    · exact (hcorner (Or.inr (Or.inl h))).elim (fun h => Or.inl (Or.inl (Or.inr h))) Or.inr
    · exact (hcorner (Or.inr (Or.inr h))).elim (fun h => Or.inl (Or.inl (Or.inr h))) Or.inr
    · exact Or.inl (Or.inr h)
    · refine Or.inr (hits_append.2 (Or.inr ((hits_version hsize).2 ⟨hseven, Or.inl ?_⟩)))
      exact ⟨h.1.1, h.1.2, h.2⟩
    · refine Or.inr (hits_append.2 (Or.inr ((hits_version hsize).2 ⟨hseven, Or.inr ?_⟩)))
      exact ⟨h.2.1, h.2.2, h.1⟩

theorem within_information {v k : Nat} (hlow : 1 ≤ v) : Within (width v) (information v k) :=
  within_of_hits fun _ _ h => (hits_information hlow h).1

/-! ## The order of the modules -/

theorem strips_spec (n : Nat) :
    (∀ r ∈ strips n, 1 ≤ r ∧ r ≤ n) ∧ (strips n).Pairwise fun r r' => r' + 2 ≤ r := by
  fun_induction strips n with
  | case1 => exact ⟨fun r hr => absurd hr List.not_mem_nil, List.Pairwise.nil⟩
  | case2 =>
    refine ⟨fun r hr => ?_, List.pairwise_singleton _ _⟩
    rw [List.mem_singleton.1 hr]
    decide
  | case3 ih =>
    have hle (r : Nat) (hr : r ∈ strips 3) : 1 ≤ r ∧ r ≤ 3 := ih.1 r hr
    refine ⟨fun r hr => ?_, List.pairwise_cons.2 ⟨fun r hr => ?_, ih.2⟩⟩
    · rcases List.mem_cons.1 hr with rfl | hr
      · decide
      · have := hle r hr
        omega
    · have := hle r hr
      omega
  | case4 right _ ih =>
    refine ⟨fun r hr => ?_, List.pairwise_cons.2 ⟨fun r hr => ?_, ih.2⟩⟩
    · rcases List.mem_cons.1 hr with rfl | hr
      · omega
      · have := ih.1 r hr
        omega
    · have := ih.1 r hr
      omega

theorem mem_strip {right : Nat} {up : Bool} {c : Nat × Nat} (h : c ∈ strip size right up) :
    (c.1 = right ∨ c.1 = right - 1) ∧ c.2 < size := by
  obtain ⟨step, hstep, hc⟩ := List.mem_flatMap.1 h
  rw [List.mem_range] at hstep
  dsimp only at hc
  have hy : (if up = true then size - 1 - step else step) < size := by
    split <;> omega
  rcases List.mem_pair.1 hc with rfl | rfl
  · exact ⟨Or.inl rfl, hy⟩
  · exact ⟨Or.inr rfl, hy⟩

theorem nodup_strip {right : Nat} (hright : 1 ≤ right) (up : Bool) :
    (strip size right up).Nodup := by
  refine List.nodup_flatMap.2 ⟨fun step _ => ?_, ?_⟩
  · refine List.nodup_cons.2 ⟨fun hmem => ?_, List.nodup_singleton _⟩
    have := congrArg Prod.fst (List.mem_singleton.1 hmem)
    dsimp only at this
    omega
  · refine List.Pairwise.imp_of_mem (fun {a b} ha hb hne => ?_) List.nodup_range
    rw [List.mem_range] at ha hb
    intro c hca hcb
    have hya : c.2 = if up = true then size - 1 - a else a := by
      rcases List.mem_pair.1 hca with rfl | rfl <;> rfl
    have hyb : c.2 = if up = true then size - 1 - b else b := by
      rcases List.mem_pair.1 hcb with rfl | rfl <;> rfl
    rw [hya] at hyb
    split at hyb <;> omega

/-- No strip takes the column of the timing pattern. -/
theorem visited_ne {v : Nat} (hlow : 1 ≤ v) (hhigh : v ≤ 10) {c : Nat × Nat}
    (h : c ∈ visited (width v)) : c.1 ≠ 6 := by
  have hstrips : ∀ r ∈ strips (width v - 1), r ≠ 6 ∧ r ≠ 7 := by
    interval_cases v <;> decide
  obtain ⟨r, hr, hc⟩ := List.mem_flatMap.1 h
  have hne := hstrips r hr
  rcases (mem_strip hc).1 with hx | hx
  · omega
  · omega

theorem visited_spec (hsize : 0 < size) :
    (visited size).Nodup ∧ ∀ c ∈ visited size, c.1 < size ∧ c.2 < size := by
  obtain ⟨hrange, hpairwise⟩ := strips_spec (size - 1)
  constructor
  · refine List.nodup_flatMap.2 ⟨fun r hr => nodup_strip (hrange r hr).1 _, ?_⟩
    refine hpairwise.imp_of_mem fun {r r'} hr hr' hapart c hc hc' => ?_
    have hx := (mem_strip hc).1
    have hx' := (mem_strip hc').1
    have hpos := hrange r' hr'
    omega
  · intro c hc
    obtain ⟨r, hr, hc⟩ := List.mem_flatMap.1 hc
    have hpos := hrange r hr
    obtain ⟨hx, hy⟩ := mem_strip hc
    exact ⟨by omega, hy⟩

theorem visited_eq {v : Nat} (hlow : 1 ≤ v) (hhigh : v ≤ 10) :
    visited (width v) = readOrder v := by
  have hpairs : (strips (width v - 1)).map (fun r => (r, upward r)) = columnPairs v := by
    interval_cases v <;> decide
  rw [readOrder, ← hpairs, List.flatMap_map]
  rfl

theorem drawFunctionPatterns_eq (v : Nat) : drawFunctionPatterns v =
    ⟨width v, draw (blank (width v)) (functionCalls v (width v)),
      draw (blank (width v)) (marks (functionCalls v (width v)))⟩ := foldl_set _ _

section Version

variable {v : Nat} (hlow : 1 ≤ v) (hhigh : v ≤ 10)
include hlow hhigh

theorem within_functionCalls : Within (width v) (functionCalls v (width v)) :=
  within_of_hits fun _ _ h => ((hits_functionCalls hlow hhigh).1 h).1

/-- The marked modules are the function modules. -/
theorem cell_fixed (hx : x < width v) (hy : y < width v) :
    cell (drawFunctionPatterns v).fixed x y = isFunction v x y := by
  have hiff : cell (drawFunctionPatterns v).fixed x y = true ↔ isFunction v x y = true := by
    rw [drawFunctionPatterns_eq, cell_marks (square_blank _) (within_functionCalls hlow hhigh),
      hits_functionCalls hlow hhigh, cell_blank, and_iff_right ⟨hx, hy⟩, or_iff_right (by decide)]
  exact Bool.eq_iff_iff.2 hiff

theorem free_eq : free (drawFunctionPatterns v).fixed (visited (width v)) = dataCells v := by
  have hsize : 0 < width v := by
    rw [width]
    omega
  rw [dataCells, ← visited_eq hlow hhigh, free]
  refine List.filter_congr fun c hc => ?_
  obtain ⟨hx, hy⟩ := (visited_spec hsize).2 c hc
  rw [cell_fixed hlow hhigh hx hy]

end Version

/-! ## Room for the codewords -/

/-- A rectangle of modules. -/
structure Rect where
  x : Nat
  columns : Nat
  y : Nat
  rows : Nat

def Rect.Has (r : Rect) (c : Nat × Nat) : Prop :=
  (r.x ≤ c.1 ∧ c.1 < r.x + r.columns) ∧ (r.y ≤ c.2 ∧ c.2 < r.y + r.rows)

instance (r : Rect) : DecidablePred r.Has := fun _ => inferInstanceAs (Decidable (_ ∧ _))

def Rect.area (r : Rect) : Nat := r.columns * r.rows

theorem length_le_area {cells : List (Nat × Nat)} (hnodup : cells.Nodup) {r : Rect}
    (h : ∀ c ∈ cells, r.Has c) : cells.length ≤ r.area := by
  have hsub : cells ⊆ List.range' r.x r.columns ×ˢ List.range' r.y r.rows := by
    intro c hc
    obtain ⟨hx, hy⟩ := h c hc
    exact List.mem_product.2 ⟨List.mem_range'_1.2 hx, List.mem_range'_1.2 hy⟩
  have hle := List.Nodup.length_le_of_subset hnodup hsub
  rwa [List.length_product, List.length_range', List.length_range'] at hle

/-- Modules that some rectangles cover are no more than these have. -/
theorem length_le_areas {cells : List (Nat × Nat)} (hnodup : cells.Nodup) {rects : List Rect}
    (h : ∀ c ∈ cells, ∃ r ∈ rects, r.Has c) : cells.length ≤ (rects.map Rect.area).sum := by
  induction rects generalizing cells with
  | nil =>
    cases cells with
    | nil => exact Nat.zero_le _
    | cons c cells =>
      obtain ⟨_, hr, _⟩ := h c List.mem_cons_self
      exact absurd hr List.not_mem_nil
  | cons r rects ih =>
    have hin : (cells.filter fun c => r.Has c).length ≤ r.area :=
      length_le_area (hnodup.filter _) fun c hc => of_decide_eq_true (List.mem_filter.1 hc).2
    have hout : (cells.filter fun c => !decide (r.Has c)).length ≤ (rects.map Rect.area).sum := by
      refine ih (hnodup.filter _) fun c hc => ?_
      obtain ⟨hmem, hnot⟩ := List.mem_filter.1 hc
      obtain ⟨r', hr', hhas⟩ := h c hmem
      rcases List.mem_cons.1 hr' with rfl | hr'
      · rw [decide_eq_true hhas] at hnot
        cases hnot
      · exact ⟨r', hr', hhas⟩
    have hsplit := cells.length_eq_length_filter_add fun c => decide (r.Has c)
    rw [List.map_cons, List.sum_cons]
    omega

/-- The corners, without the column of the timing pattern, and the row between them. -/
def cornerRects (size : Nat) : List Rect :=
  [⟨0, 6, 0, 9⟩, ⟨7, 2, 0, 9⟩, ⟨size - 8, 8, 0, 9⟩, ⟨0, 6, size - 8, 8⟩, ⟨7, 2, size - 8, 8⟩,
    ⟨9, size - 17, 6, 1⟩]

/-- The alignment patterns, without the row and the column of the timing patterns. -/
def alignmentRects (version : Nat) : List Rect :=
  let middle := (width version - 1) / 2
  let last := width version - 7
  if version = 1 then []
  else if version < 7 then [⟨last - 2, 5, last - 2, 5⟩]
  else [⟨middle - 2, 5, 4, 2⟩, ⟨middle - 2, 5, 7, 2⟩, ⟨4, 2, middle - 2, 5⟩, ⟨7, 2, middle - 2, 5⟩,
    ⟨middle - 2, 5, middle - 2, 5⟩, ⟨last - 2, 5, middle - 2, 5⟩, ⟨middle - 2, 5, last - 2, 5⟩,
    ⟨last - 2, 5, last - 2, 5⟩]

def versionRects (version : Nat) : List Rect :=
  if version < 7 then [] else [⟨width version - 11, 3, 0, 6⟩, ⟨0, 6, width version - 11, 3⟩]

/-- Rectangles that cover the function modules outside the column of the timing pattern. -/
def functionRects (version : Nat) : List Rect :=
  cornerRects (width version) ++ alignmentRects version ++ versionRects version

/-- A module that is in some rectangle. -/
def Covered (rects : List Rect) (x y : Nat) : Prop := ∃ r ∈ rects, r.Has (x, y)

theorem covered_append {as bs : List Rect} :
    Covered (as ++ bs) x y ↔ Covered as x y ∨ Covered bs x y := by
  simp only [Covered, List.mem_append, or_and_right, exists_or]

theorem covered_at {rects : List Rect} (k : Nat) {a columns b rows : Nat}
    (hr : rects[k]? = some ⟨a, columns, b, rows⟩) (hx : a ≤ x ∧ x < a + columns)
    (hy : b ≤ y ∧ y < b + rows) : Covered rects x y :=
  ⟨_, List.mem_of_getElem? hr, hx, hy⟩

theorem covered_corners (hsize : 21 ≤ size) (hx : x < size) (hy : y < size) (hne : x ≠ 6)
    (h : y = 6 ∨ (x ≤ 8 ∧ y ≤ 8) ∨ (size - 8 ≤ x ∧ y ≤ 8) ∨ (x ≤ 8 ∧ size - 8 ≤ y)) :
    Covered (cornerRects size) x y := by
  by_cases hright : size - 8 ≤ x ∧ y ≤ 8
  · exact covered_at 2 rfl (by omega) (by omega)
  · by_cases hleft : x < 6
    · by_cases htop : y ≤ 8
      · exact covered_at 0 rfl (by omega) (by omega)
      · exact covered_at 3 rfl (by omega) (by omega)
    · by_cases hnear : x ≤ 8
      · by_cases htop : y ≤ 8
        · exact covered_at 1 rfl (by omega) (by omega)
        · exact covered_at 4 rfl (by omega) (by omega)
      · exact covered_at 5 rfl (by omega) (by omega)

theorem covered_alignment {v : Nat} (hx : x ≠ 6) (hy : y ≠ 6) (h : Aligned v x y) :
    Covered (alignmentRects v) x y := by
  obtain ⟨c, hc, hnearx, hneary⟩ := h
  by_cases hone : v = 1
  · rw [alignmentSquares, if_pos hone] at hc
    exact absurd hc List.not_mem_nil
  by_cases hseven : v < 7
  · rw [alignmentSquares, if_neg hone, if_pos hseven] at hc
    obtain rfl := List.mem_singleton.1 hc
    rw [alignmentRects, if_neg hone, if_pos hseven]
    dsimp only at hnearx hneary
    exact covered_at 0 rfl (by omega) (by omega)
  · have hwide : 45 ≤ width v := by
      rw [width]
      omega
    rw [alignmentSquares, if_neg hone, if_neg hseven] at hc
    rw [alignmentRects, if_neg hone, if_neg hseven]
    simp only [List.mem_cons, List.not_mem_nil, or_false] at hc
    rcases hc with rfl | rfl | rfl | rfl | rfl | rfl <;> dsimp only at hnearx hneary
    · rcases Nat.lt_or_gt_of_ne hy with hlt | hgt
      · exact covered_at 0 rfl (by omega) (by omega)
      · exact covered_at 1 rfl (by omega) (by omega)
    · rcases Nat.lt_or_gt_of_ne hx with hlt | hgt
      · exact covered_at 2 rfl (by omega) (by omega)
      · exact covered_at 3 rfl (by omega) (by omega)
    · exact covered_at 4 rfl (by omega) (by omega)
    · exact covered_at 5 rfl (by omega) (by omega)
    · exact covered_at 6 rfl (by omega) (by omega)
    · exact covered_at 7 rfl (by omega) (by omega)

theorem covered_version {v : Nat} (hseven : 7 ≤ v)
    (h : (width v - 11 ≤ x ∧ x ≤ width v - 9) ∧ y ≤ 5 ∨
      x ≤ 5 ∧ width v - 11 ≤ y ∧ y ≤ width v - 9) : Covered (versionRects v) x y := by
  have hwide : 45 ≤ width v := by
    rw [width]
    omega
  rw [versionRects, if_neg (Nat.not_lt.2 hseven)]
  rcases h with h | h
  · exact covered_at 0 rfl (by omega) (by omega)
  · exact covered_at 1 rfl (by omega) (by omega)

theorem covered_function {v : Nat} (hlow : 1 ≤ v) (hx : x < width v) (hy : y < width v)
    (hne : x ≠ 6) (h : isFunction v x y = true) : Covered (functionRects v) x y := by
  have hsize : 21 ≤ width v := by
    rw [width]
    omega
  rw [functionRects, covered_append, covered_append]
  by_cases hrow : y = 6
  · exact Or.inl (Or.inl (covered_corners hsize hx hy hne (Or.inl hrow)))
  rcases isFunction_iff.1 h with h | h | h | h | h | h | ⟨hseven, h⟩ | ⟨hseven, h⟩
  · exact absurd h hne
  · exact absurd h hrow
  · exact Or.inl (Or.inl (covered_corners hsize hx hy hne (Or.inr (Or.inl h))))
  · exact Or.inl (Or.inl (covered_corners hsize hx hy hne (Or.inr (Or.inr (Or.inl h)))))
  · exact Or.inl (Or.inl (covered_corners hsize hx hy hne (Or.inr (Or.inr (Or.inr h)))))
  · exact Or.inl (Or.inr (covered_alignment hne hrow h))
  · exact Or.inr (covered_version hseven (Or.inl h))
  · exact Or.inr (covered_version hseven (Or.inr h))

theorem length_visited {v : Nat} (hlow : 1 ≤ v) (hhigh : v ≤ 10) :
    (visited (width v)).length = width v * (width v - 1) := by
  rw [visited_eq hlow hhigh, readOrder, columnPairs]
  simp only [List.length_flatMap, List.map_map, Function.comp_def, List.length_cons,
    List.length_nil, List.map_const', List.length_range, List.sum_replicate, smul_eq_mul]
  have hcolumns : (width v - 1) / 2 * 2 = width v - 1 := by
    rw [width]
    omega
  rw [Nat.zero_add, ← hcolumns, Nat.mul_div_cancel _ (by decide)]
  ring

/-- There are modules enough for the codewords. -/
theorem codewords_fit {v : Nat} (hlow : 1 ≤ v) (hhigh : v ≤ 10) :
    totalCodewords v * 8 ≤ (dataCells v).length := by
  have hsize : 0 < width v := by
    rw [width]
    omega
  obtain ⟨hnodup, hin⟩ := visited_spec hsize
  have hvisited := length_visited hlow hhigh
  have hfunction : ((visited (width v)).filter fun c => isFunction v c.1 c.2).length ≤
      ((functionRects v).map Rect.area).sum := by
    refine length_le_areas (hnodup.filter _) fun c hc => ?_
    obtain ⟨hmem, hfunction⟩ := List.mem_filter.1 hc
    obtain ⟨hx, hy⟩ := hin c hmem
    exact covered_function hlow hx hy (visited_ne hlow hhigh hmem) hfunction
  have hsplit := (visited (width v)).length_eq_length_filter_add fun c => isFunction v c.1 c.2
  have hareas : totalCodewords v * 8 + ((functionRects v).map Rect.area).sum ≤
      width v * (width v - 1) := by
    interval_cases v <;> decide
  rw [dataCells, ← visited_eq hlow hhigh]
  omega

end Konnekt.Qr

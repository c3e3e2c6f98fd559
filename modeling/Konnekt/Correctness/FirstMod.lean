import Mathlib
import Konnekt.Correctness.ModsTomlLines

/-!
# The first mod of a jar

The code's variables hold what the last line of each key shows, among the lines from the
first plain `[[mods]]` to the next array of tables of another name. A line shows the value
it gives if it is written plainly: a basic string without escapes, and no comment behind it.
-/

namespace Konnekt.ModsToml

open Go Server

/-! ## The loop over the lines -/

/-- The variables after a line. -/
def Line.readInto (m : ModFields) (l : Line) : ModFields :=
  m.read (trimSpace (String.ofList l.chars))

theorem isName_modId : IsName "modId" := ⟨by decide, List.all_eq_true.1 (by decide)⟩

theorem isName_version : IsName "version" := ⟨by decide, List.all_eq_true.1 (by decide)⟩

theorem isName_displayName : IsName "displayName" := ⟨by decide, List.all_eq_true.1 (by decide)⟩

theorem Line.readInto_eq (m : ModFields) (l : Line) : l.readInto m =
    ⟨if l.writes "modId" then l.shown else m.modID,
      if l.writes "version" then l.shown else m.version,
      if l.writes "displayName" then l.shown else m.displayName⟩ := by
  have hvalue : ∀ {key : String}, IsName key → l.writes key = true →
      (splitTomlKV (trimSpace (String.ofList l.chars))).2 = l.shown :=
    fun hkey h => Line.shown_of_writes hkey h
  have hid := l.split_iff isName_modId
  have hversion := l.split_iff isName_version
  have hname := l.split_iff isName_displayName
  have hread : l.readInto m =
      if l.writes "modId" then { m with modID := l.shown }
      else if l.writes "version" then { m with version := l.shown }
      else if l.writes "displayName" then { m with displayName := l.shown } else m := by
    rw [Line.readInto, ModFields.read]
    simp only [hid, hversion, hname]
    split
    · next h => rw [hvalue isName_modId h]
    · split
      · next h => rw [hvalue isName_version h]
      · split
        · next h => rw [hvalue isName_displayName h]
        · rfl
  -- A line has one key.
  have hone : ∀ {key key' : String}, key ≠ key' → l.writes key = true → l.writes key' = false := by
    intro key key' hne h
    cases hcontent : l.content with
    | entry e =>
      simp only [Line.writes, hcontent, decide_eq_true_eq] at h
      simp only [Line.writes, hcontent, decide_eq_false_iff_not, h, String.toList_inj]
      exact hne
    | _ => simp [Line.writes, hcontent] at h
  rw [hread]
  by_cases h : l.writes "modId" = true
  · simp [h, hone (show "modId" ≠ "version" by decide) h,
      hone (show "modId" ≠ "displayName" by decide) h]
  · by_cases h' : l.writes "version" = true
    · simp [h, h', hone (show "version" ≠ "displayName" by decide) h']
    · by_cases h'' : l.writes "displayName" = true
      · simp [h, h', h'']
      · simp [h, h', h'']

theorem shown_append (lines : List Line) (l : Line) (key : String) :
    shown (lines ++ [l]) key = if l.writes key then l.shown else shown lines key := by
  rw [shown, List.filter_append]
  split
  · next h => simp [h]
  · next h => simp [h, shown]

/-- The variables hold what the last line of each key shows. -/
theorem foldl_readInto (lines : List Line) : lines.foldl Line.readInto ⟨"", "", ""⟩ =
    ⟨shown lines "modId", shown lines "version", shown lines "displayName"⟩ := by
  induction lines using List.reverseRecOn with
  | nil => rfl
  | append_singleton lines l ih =>
    rw [List.foldl_append, ih, List.foldl_cons, List.foldl_nil, Line.readInto_eq]
    simp only [shown_append]

theorem isTables_of_isPlainMods {l : Line} (h : l.isPlainMods = true) : l.isTables = true := by
  rw [← l.brackets_iff, of_decide_eq_true h]
  decide

theorem readInto_of_isTables {l : Line} (h : l.isTables = true) (m : ModFields) :
    l.readInto m = m := by
  have hwrites : ∀ key, l.writes key = false := by
    intro key
    cases hcontent : l.content with
    | entry e => simp [Line.isTables, hcontent] at h
    | _ => simp [Line.writes, hcontent]
  simp [Line.readInto_eq, hwrites]

theorem trimSpace_eq_mods_iff (l : Line) :
    trimSpace (String.ofList l.chars) = "[[mods]]" ↔ l.isPlainMods = true := by
  rw [← String.toList_inj, trimSpace, String.toList_ofList, String.toList_ofList, Line.isPlainMods,
    decide_eq_true_iff]

theorem scanMods_true (m : ModFields) (lines : List Line) :
    scanMods true m (lines.map fun l => String.ofList l.chars) =
      (lines.takeWhile fun l => l.isPlainMods || !l.isTables).foldl Line.readInto m := by
  induction lines generalizing m with
  | nil => rfl
  | cons l lines ih =>
    rw [List.map_cons, scanMods]
    by_cases hplain : l.isPlainMods = true
    · rw [if_pos ((trimSpace_eq_mods_iff l).2 hplain),
        List.takeWhile_cons_of_pos (by simp [hplain]), List.foldl_cons,
        readInto_of_isTables (isTables_of_isPlainMods hplain), ih]
    · rw [if_neg fun h => hplain ((trimSpace_eq_mods_iff l).1 h)]
      have hbrackets : ['[', '['] <+: (trimSpace (String.ofList l.chars)).toList ↔
          l.isTables = true := by
        rw [trimSpace, String.toList_ofList, String.toList_ofList, l.brackets_iff]
      by_cases htables : l.isTables = true
      · rw [if_pos ⟨hbrackets.2 htables, rfl⟩,
          List.takeWhile_cons_of_neg (by simp [hplain, htables])]
        rfl
      · rw [if_neg fun h => htables (hbrackets.1 h.1), if_neg (by decide),
          List.takeWhile_cons_of_pos (by simp [htables]), List.foldl_cons, ih]
        rfl

theorem scanMods_false (m : ModFields) (lines : List Line) :
    scanMods false m (lines.map fun l => String.ofList l.chars) =
      match lines.dropWhile (!·.isPlainMods) with
      | [] => m
      | _ :: rest => scanMods true m (rest.map fun l => String.ofList l.chars) := by
  induction lines with
  | nil => rfl
  | cons l lines ih =>
    rw [List.map_cons, scanMods]
    by_cases hplain : l.isPlainMods = true
    · rw [if_pos ((trimSpace_eq_mods_iff l).2 hplain),
        List.dropWhile_cons_of_neg (by simp [hplain])]
    · rw [if_neg fun h => hplain ((trimSpace_eq_mods_iff l).1 h), if_neg (by simp),
        if_pos rfl, List.dropWhile_cons_of_pos (by simpa using hplain), ih]

/-- The variables at the end of the loop. -/
theorem scanMods_document (d : Document) :
    scanMods false ⟨"", "", ""⟩ (scanProperties d.text).1 =
      ⟨shown d.section "modId", shown d.section "version", shown d.section "displayName"⟩ := by
  have hlines : scanMods false ⟨"", "", ""⟩ (scanProperties d.text).1 =
      scanMods false ⟨"", "", ""⟩ (d.scanned.map fun l => String.ofList l.chars) := by
    rw [scanProperties, Document.text, String.toList_ofList]
    dsimp only
    have hscan := scanFrom_document d.lines d.last
    dsimp only at hscan
    have hscanned : d.scanned.map (fun l => String.ofList l.chars) =
        (d.scanned.map Line.chars).map String.ofList := by
      rw [List.map_map]
      rfl
    rw [hscanned, Document.scanned]
    rcases hscan with h | h
    · rw [← h]
      rfl
    · rw [← h, List.map_append, List.map_singleton, show String.ofList [] = "" from rfl,
        scanMods_append_empty]
      rfl
  rw [hlines, scanMods_false, Document.section]
  cases d.scanned.dropWhile (!·.isPlainMods) with
  | nil => rfl
  | cons l rest => exact (scanMods_true _ rest).trans (foldl_readInto _)

/-! ## What is shown and what is given -/

/-- An entry without a comment whose value is a basic string without escapes. -/
def Line.IsPlain (l : Line) : Prop :=
  l.comment = none ∧ ∃ e pieces, l.content = .entry e ∧ e.value = .basic pieces ∧
    ∀ p ∈ pieces, ∃ c h, p = .plain c h

theorem Escape.chars_ne_nil (e : Escape) : e.chars ≠ [] := by
  cases e <;> simp [Escape.chars]

theorem length_value_le (pieces : List Piece) :
    (pieces.map Piece.value).length ≤ (pieces.flatMap Piece.chars).length ∧
      ((∃ e, Piece.escape e ∈ pieces) →
        (pieces.map Piece.value).length < (pieces.flatMap Piece.chars).length) := by
  induction pieces with
  | nil =>
    refine ⟨le_rfl, ?_⟩
    rintro ⟨e, he⟩
    cases he
  | cons p pieces ih =>
    rw [List.map_cons, List.length_cons, List.flatMap_cons, List.length_append]
    cases p with
    | plain c h =>
      rw [Piece.chars, List.length_singleton]
      refine ⟨by omega, ?_⟩
      rintro ⟨e, he⟩
      have hlater := ih.2 ⟨e, (List.mem_cons.1 he).resolve_left (by rintro ⟨⟩)⟩
      omega
    | escape e =>
      have hpos := List.length_pos_of_ne_nil e.chars_ne_nil
      rw [Piece.chars, List.length_cons]
      exact ⟨by omega, fun _ => by omega⟩

section

variable {pieces : List Piece}

theorem Piece.first (p : Piece) : ∃ c t, p.chars = c :: t ∧ c ≠ '"' := by
  cases p with
  | plain c h => exact ⟨c, [], rfl, h.2.1⟩
  | escape e => exact ⟨'\\', e.chars, rfl, by decide⟩

theorem Piece.last {p : Piece} (h : p ≠ .escape .quote) :
    ∃ t c, p.chars = t ++ [c] ∧ decide (c = '"') = false := by
  cases p with
  | plain c hc => exact ⟨[], c, rfl, decide_eq_false hc.2.1⟩
  | escape e =>
    cases e with
    | quote => exact absurd rfl h
    | codePoint p =>
      have hne : p.digits ≠ [] := by
        intro hnil
        have hwidth := p.width
        simp [hnil] at hwidth
      refine ⟨'\\' :: (if p.digits.length = 4 then 'u' else 'U') :: p.digits.dropLast,
        p.digits.getLast hne, ?_, ?_⟩
      · simp [Piece.chars, Escape.chars, List.dropLast_concat_getLast]
      · refine decide_eq_false fun hquote => ?_
        have hdigit := hexDigitVal_of_mem p.number _ (List.getLast_mem hne)
        rw [hquote] at hdigit
        revert hdigit
        decide
    | backspace => exact ⟨['\\'], 'b', rfl, by decide⟩
    | tab => exact ⟨['\\'], 't', rfl, by decide⟩
    | lineFeed => exact ⟨['\\'], 'n', rfl, by decide⟩
    | formFeed => exact ⟨['\\'], 'f', rfl, by decide⟩
    | carriageReturn => exact ⟨['\\'], 'r', rfl, by decide⟩
    | backslash => exact ⟨['\\'], '\\', rfl, by decide⟩

/-- What stands between the quotes of a basic string does not begin with one. -/
theorem dropWhile_pieces (pieces : List Piece) :
    (pieces.flatMap Piece.chars).dropWhile (fun c => decide (c = '"')) =
      pieces.flatMap Piece.chars := by
  cases pieces with
  | nil => rfl
  | cons p pieces =>
    obtain ⟨c, t, hc, hne⟩ := p.first
    rw [List.flatMap_cons, hc, List.cons_append, List.dropWhile_cons_of_neg (by simpa using hne)]

/-- Without its quotes a basic string is its value if it has no escapes. -/
theorem trimWith_pieces : trimWith (fun c => decide (c = '"')) (pieces.flatMap Piece.chars) =
    pieces.map Piece.value ↔ ∀ p ∈ pieces, ∃ c h, p = .plain c h := by
  constructor
  · intro heq
    by_contra hplain
    push Not at hplain
    obtain ⟨p, hp, hnot⟩ := hplain
    have hescape : ∃ e, Piece.escape e ∈ pieces := by
      cases p with
      | plain c h => exact absurd rfl (hnot c h)
      | escape e => exact ⟨e, hp⟩
    have hlength := (length_value_le pieces).2 hescape
    rcases List.eq_nil_or_concat pieces with rfl | ⟨init, last, rfl⟩
    · cases hp
    · rw [List.concat_eq_append] at heq hlength
      by_cases hquote : last = .escape .quote
      · subst hquote
        have hcut := @trimWith_cut (fun c => decide (c = '"')) '\\' (by decide)
          (init.flatMap Piece.chars) ['"']
        rw [dropWhile_pieces] at hcut
        rw [List.flatMap_append, List.flatMap_singleton, List.map_append] at heq
        have hback := hcut.symm.trans heq
        have hlast := congrArg List.getLast? hback
        simp [Piece.value, Escape.value] at hlast
      · obtain ⟨t, c, hc, hne⟩ := Piece.last hquote
        have hfirst : ∃ d u, (init ++ [last]).flatMap Piece.chars = d :: u ∧
            decide (d = '"') = false := by
          cases init with
          | nil =>
            obtain ⟨d, u, hd, hne⟩ := last.first
            exact ⟨d, u, by simp [hd], decide_eq_false hne⟩
          | cons p init =>
            obtain ⟨d, u, hd, hne⟩ := p.first
            exact ⟨d, _, by rw [List.cons_append, List.flatMap_cons, hd, List.cons_append],
              decide_eq_false hne⟩
        have hend : ∃ t c, (init ++ [last]).flatMap Piece.chars = t ++ [c] ∧
            decide (c = '"') = false := by
          refine ⟨init.flatMap Piece.chars ++ t, c, ?_, hne⟩
          rw [List.flatMap_append, List.flatMap_singleton, hc, List.append_assoc]
        rw [trimWith_of_ends hfirst hend] at heq
        rw [heq] at hlength
        exact lt_irrefl _ hlength
  · intro hplain
    have hchars : pieces.flatMap Piece.chars = pieces.map Piece.value := by
      induction pieces with
      | nil => rfl
      | cons p pieces ih =>
        rw [List.forall_mem_cons] at hplain
        obtain ⟨⟨c, h, rfl⟩, hplain⟩ := hplain
        rw [List.flatMap_cons, List.map_cons, ih hplain]
        rfl
    have hnone : ∀ c ∈ pieces.map Piece.value, ¬ decide (c = '"') = true := by
      intro c hc
      obtain ⟨p, hp, rfl⟩ := List.mem_map.1 hc
      obtain ⟨d, h, rfl⟩ := hplain p hp
      rw [Piece.value, decide_eq_true_iff]
      exact h.2.1
    have hdrop : ∀ s : List Char, (∀ c ∈ s, ¬ decide (c = '"') = true) →
        s.dropWhile (fun c => decide (c = '"')) = s := by
      intro s hs
      cases s with
      | nil => rfl
      | cons c s => exact List.dropWhile_cons_of_neg (hs c List.mem_cons_self)
    rw [hchars, trimWith, hdrop _ hnone, hdrop _ fun c hc => hnone c (List.mem_reverse.1 hc),
      List.reverse_reverse]

end

/-- What the code has at the end is what the first `[[mods]]` table gives. -/
structure FirstTableShown (d : Document) (table : List Entry) : Prop where
  id : match given table "modId" with
    | none => shown d.section "modId" = ""
    | some id => id ≠ "" ∧ shown d.section "modId" = id
  name : ∀ id, given table "modId" = some id → match given table "displayName" with
    | none => shown d.section "displayName" = "" ∨ shown d.section "displayName" = id
    | some name => name ≠ "" ∧ shown d.section "displayName" = name ∨
        name = id ∧ shown d.section "displayName" = ""
  version : ∀ id, given table "modId" = some id →
    readVersion (shown d.section "version") = readVersion ((given table "version").getD "")

theorem parseModsToml_eq_declared_iff (d : Document) (loader : String) (table : List Entry) :
    parseModsToml (.ok d.text) loader = declared table loader ↔ FirstTableShown d table := by
  rw [parseModsToml, scanMods_document]
  dsimp only
  cases hid : given table "modId" with
  | none =>
    have hdeclared : declared table loader = none := by
      rw [declared, hid, Option.map_none]
    rw [hdeclared]
    constructor
    · intro heq
      refine ⟨?_, fun id hsome => ?_, fun id hsome => ?_⟩
      · rw [hid]
        by_contra hne
        rw [if_neg hne] at heq
        cases heq
      · rw [hid] at hsome
        cases hsome
      · rw [hid] at hsome
        cases hsome
    · intro hshown
      have hempty := hshown.id
      rw [hid] at hempty
      exact if_pos hempty
  | some id =>
    have hdeclared : declared table loader =
        some ⟨id, (given table "displayName").getD id,
          readVersion ((given table "version").getD ""), loader⟩ := by
      rw [declared, hid, Option.map_some]
    rw [hdeclared]
    have hname : ∀ shown : String, ((if shown = "" then id else shown) =
        (given table "displayName").getD id ↔ match given table "displayName" with
          | none => shown = "" ∨ shown = id
          | some name => name ≠ "" ∧ shown = name ∨ name = id ∧ shown = "") := by
      intro shown
      cases given table "displayName" with
      | none =>
        by_cases hempty : shown = ""
        · simp [hempty]
        · simp [hempty]
      | some name =>
        by_cases hempty : shown = ""
        · subst hempty
          simp [eq_comm]
        · simp only [hempty, if_false, Option.getD_some, and_false, or_false]
          exact ⟨fun heq => ⟨heq ▸ hempty, heq⟩, fun hand => hand.2⟩
    constructor
    · intro heq
      have hne : shown d.section "modId" ≠ "" := by
        intro hempty
        rw [if_pos hempty] at heq
        cases heq
      rw [if_neg hne] at heq
      obtain ⟨hmod, hshow, hversion, -⟩ := JarMeta.mk.inj (Option.some.inj heq)
      rw [hmod] at hshow
      refine ⟨?_, fun id' hsome => ?_, fun _ _ => hversion⟩
      · rw [hid]
        exact ⟨hmod ▸ hne, hmod⟩
      · rw [hid] at hsome
        obtain rfl := Option.some.inj hsome
        exact (hname _).1 hshow
    · rintro ⟨hmod, hshow, hversion⟩
      rw [hid] at hmod
      rw [if_neg (hmod.2 ▸ hmod.1), hmod.2, (hname _).2 (hshow id hid)]
      exact congrArg some (congrArg₂ (fun name version => JarMeta.mk id name version loader) rfl
        (hversion id hid))

theorem Document.exists_modsTable {d : Document} (h : ∃ l ∈ d.all, l.isMods = true) :
    ∃ table, d.modsTable = some table := by
  obtain ⟨l, hl, hmods⟩ := h
  rw [Document.modsTable]
  split
  · next hnil =>
    have hnot := List.dropWhile_eq_nil_iff.1 hnil l hl
    rw [hmods] at hnot
    cases hnot
  · exact ⟨_, rfl⟩

/-- The code finds what the first `[[mods]]` table declares exactly where the last line of each key
in its section shows what this table gives. -/
theorem parseModsToml_iff {d : Document} (h : ∃ l ∈ d.all, l.isMods = true) (loader : String) :
    ∃ table, d.modsTable = some table ∧
      (parseModsToml (.ok d.text) loader = declared table loader ↔ FirstTableShown d table) := by
  obtain ⟨table, htable⟩ := d.exists_modsTable h
  exact ⟨table, htable, parseModsToml_eq_declared_iff d loader table⟩

/-! ## A comment behind the value -/

/-- Nothing before or behind. -/
def Blank.none : Blank := ⟨[], nofun⟩

/-- A key of one name without quotes. -/
def Key.word (name : List Char) (hne : name ≠ []) (h : name.all isBare = true) : Key :=
  ⟨.bare name ⟨hne, List.all_eq_true.1 h⟩, []⟩

/-- A string written plainly. -/
def Str.plain (body : List Char)
    (h : body.all (fun c => isText c && decide (c ≠ '"' ∧ c ≠ '\\')) = true) : Str :=
  .basic (body.pmap Piece.plain fun c hc => by simpa using List.all_eq_true.1 h c hc)

/-- `modId="examplemod"`. -/
def exampleId : Entry where
  key := .word "modId".toList (by decide) (by decide)
  before := .none
  after := .none
  value := .plain "examplemod".toList (by decide)

/-- `[[mods]]`, and the id with a comment behind it. -/
def mandatoryMod : Document where
  lines := [
    (⟨.none, .tables ⟨.none, .word "mods".toList (by decide) (by decide), .none⟩, .none, none⟩,
      false),
    (⟨.none, .entry exampleId, ⟨[' '], by simp⟩,
      some ⟨"mandatory".toList, List.all_eq_true.1 (by decide)⟩⟩, false)]
  last := ⟨.none, .nothing, .none, none⟩

theorem parseModsToml_iff_mandatory : ∃ table, mandatoryMod.modsTable = some table ∧
    (parseModsToml (.ok mandatoryMod.text) "forge" = declared table "forge" ↔
      FirstTableShown mandatoryMod table) :=
  parseModsToml_iff (by decide +kernel) "forge"

/-- The comment becomes a part of the id. -/
theorem not_declared_mandatory : ∃ table, mandatoryMod.modsTable = some table ∧
    mandatoryMod.text = "[[mods]]\nmodId=\"examplemod\" #mandatory\n" ∧
    parseModsToml (.ok mandatoryMod.text) "forge" =
      some ⟨"examplemod\" #mandatory", "examplemod\" #mandatory", "", "forge"⟩ ∧
    parseModsToml (.ok mandatoryMod.text) "forge" ≠ declared table "forge" := by
  refine ⟨[exampleId], ?_, ?_, ?_, ?_⟩
  all_goals decide +kernel

end Konnekt.ModsToml

import Konnekt.Snapshots.Latest

/-!
# The pointer stays below its folder and leads back

A reader accepts names only behind the folder of the pointer. What the writer puts into
the pointer are the names of the index behind that folder, so the reader gets the index
back, and the parts are as many folders above the index as the layout has put there.
-/

namespace Konnekt.Snapshots

open Go Path

/-! ## Names that are plain -/

theorem plain_of_chars {s : String} (hne : s ≠ "")
    (h : ∀ c ∈ s.toList, c ≠ '.' ∧ c ≠ '/') : Plain s := by
  refine plain_of_ne hne ?_ ?_ fun hslash => (h _ hslash).2 rfl
  · rintro rfl
    exact (h '.' (by decide)).1 rfl
  · rintro rfl
    exact (h '.' (by decide)).1 rfl

/-- A name of characters among which are no dot and no slash. -/
theorem plain_of_all {s : String} {p : Char → Bool}
    (h : (!s.toList.isEmpty && s.toList.all p) = true) (hdot : p '.' = false)
    (hslash : p '/' = false) : Plain s := by
  rw [Bool.and_eq_true, List.all_eq_true] at h
  apply plain_of_chars
  · rintro rfl
    exact absurd h.1 (by decide)
  · intro c hc
    have hall := h.2 c hc
    constructor
    · rintro rfl
      rw [hdot] at hall
      cases hall
    · rintro rfl
      rw [hslash] at hall
      cases hall

theorem plain_of_isDHToken {token : String} (h : isDHToken token = true) : Plain token :=
  plain_of_all h (by decide) (by decide)

theorem plain_of_isPublishFolder {folder : String} (h : isPublishFolder folder = true) :
    Plain folder := plain_of_all h (by decide) (by decide)

/-- What a stamp is written with. -/
def IsStampChar (c : Char) : Prop := c.isDigit = true ∨ c = '-' ∨ c = 'T' ∨ c = 'Z'

theorem isStampChar_zeroPadded {width n : Nat} {c : Char}
    (h : c ∈ (zeroPadded width n).toList) : IsStampChar c :=
  .inl (isDigit_of_mem_zeroPadded h)

theorem isStampChar_formatYear {year : Int} {c : Char} (h : c ∈ (formatYear year).toList) :
    IsStampChar c := by
  rw [formatYear, String.toList_append, List.mem_append] at h
  cases h with
  | inl h =>
    by_cases hneg : year < 0
    · rw [if_pos hneg] at h
      exact .inr (.inl (by simpa using h))
    · rw [if_neg hneg] at h
      exact absurd h (by simp)
  | inr h => exact isStampChar_zeroPadded h

theorem isStampChar_dhFolderStamp {t : UTCTime} {c : Char}
    (h : c ∈ (dhFolderStamp t).toList) : IsStampChar c := by
  simp only [dhFolderStamp, String.toList_append, List.mem_append] at h
  obtain (((((((h | h) | h) | h) | h) | h) | h) | h) := h
  · exact isStampChar_formatYear h
  · exact isStampChar_zeroPadded h
  · exact isStampChar_zeroPadded h
  · exact .inr (.inr (.inl (by simpa using h)))
  · exact isStampChar_zeroPadded h
  · exact isStampChar_zeroPadded h
  · exact isStampChar_zeroPadded h
  · exact .inr (.inr (.inr (by simpa using h)))

theorem plain_dhFolderStamp (t : UTCTime) : Plain (dhFolderStamp t) := by
  apply plain_of_chars
  · intro h
    have hlen := congrArg String.length h
    simp [dhFolderStamp] at hlen
  · intro c hc
    have hstamp := isStampChar_dhFolderStamp hc
    constructor
    · rintro rfl
      revert hstamp
      simp [IsStampChar]
    · rintro rfl
      revert hstamp
      simp [IsStampChar]

/-! ## Slashes at the ends -/

theorem trimSlashes_rooted (s : String) : rooted (trimSlashes s) = false := by
  have hhead : ∀ l : List Char,
      ((l.dropWhile (· == '/')).reverse.dropWhile (· == '/')).reverse.head? ≠ some '/' := by
    intro l h
    have hpre : ((l.dropWhile (· == '/')).reverse.dropWhile (· == '/')).reverse <+:
        l.dropWhile (· == '/') := by
      rw [← List.reverse_suffix, List.reverse_reverse]
      exact List.dropWhile_suffix _
    obtain ⟨rest, hrest⟩ := hpre
    have hhead : (l.dropWhile (· == '/')).head? = some '/' := by
      rw [← hrest, List.head?_append, h]
      rfl
    have hne : l.dropWhile (· == '/') ≠ [] := by
      intro hnil
      rw [hnil] at hhead
      cases hhead
    have hnot := List.head_dropWhile_not (· == '/') hne
    rw [List.head?_eq_some_head hne] at hhead
    rw [Option.some.inj hhead] at hnot
    exact absurd hnot (by decide)
  rw [rooted, trimSlashes, String.toList_ofList, beq_eq_false_iff_ne]
  exact hhead _

/-- The text of names that are cleaned begins and ends in names. -/
theorem trimSlashes_joinSlash {ns : List String} (h : Cleaned false ns.reverse) (t : String)
    (ht : ∀ c ∈ t.toList, c = '/') (hne : ns ≠ []) :
    trimSlashes (joinSlash ns ++ t) = joinSlash ns := by
  obtain ⟨ups, up, hups⟩ := (List.eq_nil_or_concat ns).resolve_left hne
  rw [List.concat_eq_append] at hups
  have hup := h.ne_empty (p := up) (by simp [hups])
  have hlast : ∃ lead, (joinSlash ns).toList = lead ++ up.toList := by
    by_cases hnil : ups = []
    · exact ⟨[], by rw [hups, hnil]; rfl⟩
    · refine ⟨(joinSlash ups ++ "/").toList, ?_⟩
      rw [hups, joinSlash_append hnil (List.cons_ne_nil _ _), String.toList_append]
      rfl
  obtain ⟨lead, hlead⟩ := hlast
  have hrooted := h.rooted_joinSlash
  rw [rooted, beq_eq_false_iff_ne] at hrooted
  have htext : (joinSlash ns).toList ≠ [] := by
    rw [hlead]
    simp [hup.1]
  have hfront : ((joinSlash ns ++ t).toList.dropWhile (· == '/')) = (joinSlash ns ++ t).toList := by
    rw [String.toList_append]
    obtain ⟨c, cs, hcs⟩ := List.exists_cons_of_ne_nil htext
    rw [hcs] at hrooted ⊢
    have hc : (c == '/') = false := by simpa using hrooted
    rw [List.cons_append, List.dropWhile_cons_of_neg (by simp [hc])]
  have hback : (t.toList.reverse ++ (joinSlash ns).toList.reverse).dropWhile (· == '/') =
      (joinSlash ns).toList.reverse := by
    rw [List.dropWhile_append_of_pos (fun c hc => by simp [ht c (List.mem_reverse.1 hc)]), hlead,
      List.reverse_append]
    obtain ⟨c, cs, hcs⟩ := List.exists_cons_of_ne_nil
      (List.reverse_ne_nil_iff.2 fun heq => hup.1 (String.toList_inj.1 heq))
    have hc : c ≠ '/' := by
      rintro rfl
      exact hup.2.2 (List.mem_reverse.1 (by rw [hcs]; exact List.mem_cons_self))
    rw [hcs, List.cons_append, List.dropWhile_cons_of_neg (by simpa using hc)]
  rw [trimSlashes, hfront, String.toList_append, List.reverse_append, hback, List.reverse_reverse,
    String.ofList_toList]

/-! ## The keys of a layout -/

/-- Where the keys of a layout are: the parts behind the names of the prefix, everything else
behind those and the token. -/
structure Laid (ps bs : List String) (stamp : String) (k : SnapshotKeys) : Prop where
  latest : k.latest = joinSlash (bs ++ ["latest.json"])
  index : k.index = joinSlash (bs ++ ["snapshots", stamp, "index.json"])
  page : k.page = joinSlash (bs ++ ["snapshots", stamp, "index.html"])
  snapshotDir : k.snapshotDir = joinSlash (bs ++ ["snapshots", stamp])
  partsPrefix : k.partsPrefix = joinSlash (ps ++ ["parts"]) ++ "/"

theorem plain_cons {p : String} {ps : List String} (hp : Plain p) (hps : ∀ q ∈ ps, Plain q) :
    ∀ q ∈ p :: ps, Plain q := List.forall_mem_cons.2 ⟨hp, hps⟩

theorem plain_nil : ∀ q ∈ ([] : List String), Plain q := by simp

/-- The names of a base folder and what is joined to it. -/
theorem laid_of_base {ps bs : List String} {base parts : String} {time : SnapshotTime}
    (hbase : rooted base = false) (hbs : names base = bs) (hstamp : Plain time.stamp)
    (hparts : parts = joinSlash (ps ++ ["parts"]) ++ "/") (createdAt partsBase : String) :
    Laid ps bs time.stamp
      { createdAt
        latest := join [base, "latest.json"]
        index := join [join [base, "snapshots", time.stamp], "index.json"]
        page := join [join [base, "snapshots", time.stamp], "index.html"]
        partsPrefix := parts
        partsBase
        snapshotDir := join [base, "snapshots", time.stamp] } := by
  have hcleaned : Cleaned false bs.reverse := by
    have h := cleaned_names base
    rwa [hbase, hbs] at h
  have hdirNames := plain_cons (show Plain "snapshots" by decide) (plain_cons hstamp plain_nil)
  have hdir : join [base, "snapshots", time.stamp] =
      joinSlash (bs ++ ["snapshots", time.stamp]) := by
    rw [join_three base (by decide) hstamp.ne_empty, join_names hbase (by simp) hdirNames, hbs]
  have hdirCleaned := hcleaned.append_plain hdirNames
  have hfile : ∀ name, Plain name → join [joinSlash (bs ++ ["snapshots", time.stamp]), name] =
      joinSlash (bs ++ ["snapshots", time.stamp, name]) := by
    intro name hname
    have h := @join_names _ [name] hdirCleaned.rooted_joinSlash (by simp)
      (plain_cons hname plain_nil)
    rw [joinSlash] at h
    rw [h, hdirCleaned.names_joinSlash, List.append_assoc]
    rfl
  refine ⟨?_, ?_, ?_, hdir, hparts⟩
  · have h := @join_names _ ["latest.json"] hbase (by simp) (plain_cons (by decide) plain_nil)
    rw [hbs, joinSlash] at h
    exact h
  · rw [hdir]
    exact hfile _ (by decide)
  · rw [hdir]
    exact hfile _ (by decide)

/-- The names behind the prefix: the token of a private layout. -/
def tokenNames (token : String) : List String := if token = "" then [] else [token]

theorem laid_snapshotKeys {keyPrefix token : String} {time : SnapshotTime} {keys : SnapshotKeys}
    (h : snapshotKeys keyPrefix token time = .ok keys) (hstamp : Plain time.stamp) :
    (∀ q ∈ tokenNames token, Plain q) ∧
      keys.partsBase = repeated "../" ((tokenNames token).length + 2) ++ "parts/" ∧
        Laid (names (trimSlashes keyPrefix)) (names (trimSlashes keyPrefix) ++ tokenNames token)
          time.stamp keys := by
  have hroot := trimSlashes_rooted keyPrefix
  have hcleaned := cleaned_names (trimSlashes keyPrefix)
  rw [hroot] at hcleaned
  have hparts : (if trimSlashes keyPrefix = "" then "parts/"
      else join [trimSlashes keyPrefix, "parts"] ++ "/") =
        joinSlash (names (trimSlashes keyPrefix) ++ ["parts"]) ++ "/" := by
    by_cases hempty : trimSlashes keyPrefix = ""
    · rw [if_pos hempty, hempty]
      decide
    · rw [if_neg hempty]
      have h := @join_names _ ["parts"] hroot (by simp) (plain_cons (by decide) plain_nil)
      rw [joinSlash] at h
      rw [h]
  unfold snapshotKeys at h
  split at h
  · cases h
  · next hvalid =>
    cases h
    by_cases htoken : token = ""
    · subst htoken
      refine ⟨by simp [tokenNames], rfl, ?_⟩
      exact laid_of_base hroot (List.append_nil _).symm hstamp hparts _ _
    · have hplain : Plain token := by
        rw [not_and, not_not] at hvalid
        exact plain_of_isDHToken (hvalid htoken)
      have hnames : tokenNames token = [token] := if_neg htoken
      have hbase := @join_names _ [token] hroot (by simp) (plain_cons hplain plain_nil)
      rw [joinSlash] at hbase
      have hbaseCleaned := hcleaned.append_plain (plain_cons hplain plain_nil)
      rw [hnames]
      refine ⟨plain_cons hplain plain_nil, ?_, ?_⟩
      · simp only [ne_eq, htoken, not_false_eq_true, if_true, List.length_singleton]
      · simp only [ne_eq, htoken, not_false_eq_true, if_true, hbase]
        exact laid_of_base hbaseCleaned.rooted_joinSlash hbaseCleaned.names_joinSlash hstamp
          hparts _ _

/-! ## The root of a layout -/

section

variable {ps bs : List String} {stamp : String} {k : SnapshotKeys}

/-- The root of a layout is what its prefix names. -/
theorem Laid.root_eq (h : Laid ps bs stamp k) (hps : Cleaned false ps.reverse) :
    k.root = joinSlash ps := by
  rw [SnapshotKeys.root, h.partsPrefix]
  by_cases hnil : ps = []
  · subst hnil
    decide
  · have htext : joinSlash (ps ++ ["parts"]) ++ "/" = joinSlash ps ++ "/" ++ "parts/" := by
      rw [joinSlash_append hnil (List.cons_ne_nil _ _), String.append_assoc]
      rfl
    rw [htext, trimSuffix_append]
    exact trimSlashes_joinSlash hps "/" (by simp) hnil

/-- A key below the root of a layout. -/
def UnderRoot (root key : String) : Prop := root = "" ∨ (root ++ "/").toList <+: key.toList

theorem underRoot_joinSlash (ps : List String) {qs : List String} (hqs : qs ≠ []) (t : String) :
    UnderRoot (joinSlash ps) (joinSlash (ps ++ qs) ++ t) := by
  by_cases hnil : ps = []
  · subst hnil
    exact .inl rfl
  · refine .inr ⟨(joinSlash qs ++ t).toList, ?_⟩
    rw [← String.toList_append, joinSlash_append hnil hqs]
    simp only [String.append_assoc]

/-- The keys that a snapshot writes. -/
inductive InLayout (k : SnapshotKeys) : String → Prop where
  | latest : InLayout k k.latest
  | index : InLayout k k.index
  | page : InLayout k k.page
  | part (sha256 : String) : InLayout k (k.partKey sha256)
  | assembled {folder : String} : isPublishFolder folder = true →
      InLayout k (k.assembledKey folder)

theorem Laid.assembledKey_eq (h : Laid ps bs stamp k) (hbs : Cleaned false bs.reverse)
    (hstamp : Plain stamp) {folder : String} (hfolder : Plain folder) :
    k.assembledKey folder = joinSlash (bs ++ ["snapshots", stamp, folder, dhDatabaseName]) := by
  have hdirNames := plain_cons (show Plain "snapshots" by decide) (plain_cons hstamp plain_nil)
  have hfile := plain_cons hfolder (plain_cons (show Plain dhDatabaseName by decide) plain_nil)
  have hdirCleaned := hbs.append_plain hdirNames
  rw [SnapshotKeys.assembledKey, h.snapshotDir, join_three _ hfolder.ne_empty (by decide),
    join_names hdirCleaned.rooted_joinSlash (by simp) hfile, hdirCleaned.names_joinSlash,
    List.append_assoc]
  rfl

theorem Laid.underRoot {toks : List String} (h : Laid ps (ps ++ toks) stamp k)
    (hps : Cleaned false ps.reverse) (htoks : ∀ q ∈ toks, Plain q) (hstamp : Plain stamp)
    {key : String} (hkey : InLayout k key) : UnderRoot k.root key := by
  have hunder : ∀ {qs : List String} (t : String), qs ≠ [] →
      UnderRoot k.root (joinSlash (ps ++ toks ++ qs) ++ t) := by
    intro qs t hqs
    rw [h.root_eq hps, List.append_assoc]
    exact underRoot_joinSlash ps (by simp [hqs]) t
  cases hkey with
  | latest =>
    rw [h.latest, ← @String.append_empty (joinSlash _)]
    exact hunder "" (by simp)
  | index =>
    rw [h.index, ← @String.append_empty (joinSlash _)]
    exact hunder "" (by simp)
  | page =>
    rw [h.page, ← @String.append_empty (joinSlash _)]
    exact hunder "" (by simp)
  | part sha256 =>
    rw [SnapshotKeys.partKey, h.partsPrefix, h.root_eq hps, String.append_assoc]
    exact underRoot_joinSlash ps (by simp) _
  | assembled hfolder =>
    rw [h.assembledKey_eq (hps.append_plain htoks) hstamp (plain_of_isPublishFolder hfolder),
      ← @String.append_empty (joinSlash _)]
    exact hunder "" (by simp)

/-! ## Back to the parts -/

/-- As many parents as there are names behind a path lead back to it. -/
theorem foldl_ups {out names : List String} (hnames : ∀ q ∈ names, Plain q) :
    (List.replicate names.length "..").foldl (cleanStep false) (names.reverse ++ out) = out := by
  induction names using List.reverseRecOn with
  | nil => rfl
  | append_singleton names q ih =>
    have hq : q ≠ ".." := by
      rintro rfl
      exact not_plain_up (hnames ".." (by simp))
    have hstep : cleanStep false (q :: (names.reverse ++ out)) ".." = names.reverse ++ out := by
      simp [cleanStep, hq]
    rw [List.length_append, List.length_singleton, List.replicate_succ, List.foldl_cons,
      List.reverse_append, List.reverse_singleton, List.singleton_append, List.cons_append, hstep]
    exact ih fun p hp => hnames p (List.mem_append_left _ hp)

theorem parts_repeated (n : Nat) :
    parts (repeated "../" n ++ "parts/") = List.replicate n ".." ++ ["parts", ""] := by
  induction n with
  | zero => decide
  | succ n ih =>
    have htext : repeated "../" (n + 1) ++ "parts/" =
        ".." ++ "/" ++ (repeated "../" n ++ "parts/") := by
      rw [repeated, String.append_assoc]
      rfl
    have hup : parts ".." = [".."] := by decide
    rw [htext, parts_append, ih, hup]
    rfl

/-- The parts of a snapshot, resolved against the folder of its index. -/
theorem Laid.join_partsBase {toks : List String} (h : Laid ps (ps ++ toks) stamp k)
    (hps : Cleaned false ps.reverse) (htoks : ∀ q ∈ toks, Plain q) (hstamp : Plain stamp)
    (hbase : k.partsBase = repeated "../" (toks.length + 2) ++ "parts/") :
    join [dir k.index, k.partsBase] ++ "/" = k.partsPrefix := by
  have hnames : ∀ q ∈ toks ++ ["snapshots", stamp], Plain q := by
    intro q hq
    rcases List.mem_append.1 hq with hq | hq
    · exact htoks q hq
    · exact plain_cons (show Plain "snapshots" by decide) (plain_cons hstamp plain_nil) q hq
  have hdirCleaned := hps.append_plain hnames
  have hne : ps ++ (toks ++ ["snapshots", stamp]) ≠ [] := by simp
  have hindex : k.index = joinSlash (ps ++ (toks ++ ["snapshots", stamp]) ++ ["index.json"]) := by
    rw [h.index]
    simp only [List.append_assoc, List.cons_append, List.nil_append]
  have hfile := plain_cons (show Plain "index.json" by decide) plain_nil
  have hdir : dir k.index = joinSlash (ps ++ (toks ++ ["snapshots", stamp])) := by
    rw [hindex, dir_joinSlash (hdirCleaned.append_plain hfile), text]
    simp only [Bool.false_eq_true, if_false, hne]
  have hclean : cleanParts false (parts (dir k.index) ++ parts k.partsBase) = ps ++ ["parts"] := by
    have hlen : toks.length + 2 = (toks ++ ["snapshots", stamp]).length := by simp
    rw [hdir, parts_joinSlash hne hdirCleaned.slash, hbase, parts_repeated, cleanParts,
      List.foldl_append, List.foldl_append]
    have hfold := hdirCleaned.foldl_reverse
    rw [List.reverse_reverse] at hfold
    rw [hfold, List.reverse_append, hlen, foldl_ups hnames, List.foldl_cons, List.foldl_cons,
      cleanStep_empty, cleanStep_of_plain (by decide)]
    simp
  have hrooted : rooted k.partsBase = false := by
    rw [hbase, repeated, String.append_assoc, rooted_append (by decide)]
    decide
  have hempty : k.partsBase ≠ "" := by
    rw [hbase]
    intro heq
    have hlen := congrArg String.length heq
    simp at hlen
  have hdirRooted : rooted (dir k.index) = false := by
    rw [hdir]
    exact hdirCleaned.rooted_joinSlash
  rw [join_relative hdirRooted hempty _ hrooted, hclean, h.partsPrefix]
  rw [hclean]
  simp

/-! ## The pointer -/

theorem mem_joinSlash {ns : List String} {c : Char} (h : c ∈ (joinSlash ns).toList) :
    c = '/' ∨ ∃ p ∈ ns, c ∈ p.toList := by
  induction ns with
  | nil => exact absurd h (by simp [joinSlash])
  | cons p ns ih =>
    by_cases hnil : ns = []
    · subst hnil
      exact .inr ⟨p, List.mem_singleton_self p, h⟩
    · rw [toList_joinSlash_cons p hnil, List.mem_append, List.mem_cons] at h
      obtain h | h | h := h
      · exact .inr ⟨p, List.mem_cons_self, h⟩
      · exact .inl h
      · obtain hslash | ⟨q, hq, hc⟩ := ih h
        · exact .inl hslash
        · exact .inr ⟨q, List.mem_cons_of_mem p hq, hc⟩

/-- A pointer that is accepted is made of plain names. -/
theorem exists_of_latestIndexKey {latestKey key : String} {l : DHLatest}
    (h : latestIndexKey latestKey l = .ok key) : ∃ ns, ns ≠ [] ∧ (∀ q ∈ ns, Plain q) ∧
      l.index = joinSlash ns ∧ key = join [dir latestKey, joinSlash ns] := by
  simp only [latestIndexKey] at h
  split at h
  · cases h
  split at h
  · cases h
  split at h
  · cases h
  split at h
  · cases h
  split at h
  · cases h
  next hsegs =>
    cases h
    refine ⟨parts l.index, parts_ne_nil _, fun q hq => ?_, (joinSlash_parts _).symm, ?_⟩
    · refine ⟨fun hmem => hsegs ?_, not_mem_of_mem_parts hq⟩
      exact List.any_eq_true.2 ⟨q, hq, decide_eq_true hmem⟩
    · rw [joinSlash_parts]

/-- A character that a pointer may be written with. -/
def PointerChar (c : Char) : Prop :=
  c ≠ '\\' ∧ c ≠ '?' ∧ c ≠ '#' ∧ c ≠ '%' ∧ isControl c = false

instance : DecidablePred PointerChar := fun c =>
  inferInstanceAs (Decidable
    (c ≠ '\\' ∧ c ≠ '?' ∧ c ≠ '#' ∧ c ≠ '%' ∧ isControl c = false))

theorem pointerChar_of_isStampChar {c : Char} (h : IsStampChar c) : PointerChar c := by
  obtain h | rfl | rfl | rfl := h
  · have hnat : 48 ≤ c.toNat ∧ c.toNat ≤ 57 := Char.isDigit_iff_toNat.1 h
    have hne : ∀ d : Char, d.isDigit = false → c ≠ d := by
      rintro d hd rfl
      rw [h] at hd
      cases hd
    refine ⟨hne _ (by decide), hne _ (by decide), hne _ (by decide), hne _ (by decide), ?_⟩
    rw [isControl, Bool.or_eq_false_iff, Bool.and_eq_false_iff]
    simp only [decide_eq_false_iff_not]
    omega
  · decide
  · decide
  · decide

theorem latestIndexKey_joinSlash (latestKey : String) {l : DHLatest} {q : String}
    {ns : List String} (hl : l.index = joinSlash (q :: ns)) (hns : ∀ p ∈ q :: ns, Plain p)
    (hcolon : ':' ∉ q.toList)
    (hchars : ∀ p ∈ q :: ns, ∀ c ∈ p.toList, PointerChar c) :
    latestIndexKey latestKey l = .ok (join [dir latestKey, joinSlash (q :: ns)]) := by
  have hparts := parts_joinSlash (List.cons_ne_nil q ns) (slash_of_plain hns)
  have hall : ∀ c ∈ (joinSlash (q :: ns)).toList, PointerChar c := by
    intro c hc
    obtain rfl | ⟨p, hp, hc⟩ := mem_joinSlash hc
    · decide
    · exact hchars p hp c hc
  have hback : ¬(rooted (joinSlash (q :: ns)) = true ∨ '\\' ∈ (joinSlash (q :: ns)).toList) := by
    rw [rooted_joinSlash hns]
    rintro (h | h)
    · cases h
    · exact (hall _ h).1 rfl
  have hplain : ¬((joinSlash (q :: ns)).toList.any
        (fun c => c == '?' || c == '#' || c == '%') = true ∨
      (joinSlash (q :: ns)).toList.any isControl = true) := by
    rintro (h | h)
    · obtain ⟨c, hc, hmem⟩ := List.any_eq_true.1 h
      have hno := hall c hc
      simp [hno.2.1, hno.2.2.1, hno.2.2.2.1] at hmem
    · obtain ⟨c, hc, hmem⟩ := List.any_eq_true.1 h
      rw [(hall c hc).2.2.2.2] at hmem
      cases hmem
  have hsegs : ¬(q :: ns).any (fun p => decide (p ∈ ["", ".", ".."])) = true := by
    intro h
    obtain ⟨p, hp, hmem⟩ := List.any_eq_true.1 h
    exact (hns p hp).1 (of_decide_eq_true hmem)
  simp only [latestIndexKey, hl]
  rw [if_neg (joinSlash_ne_empty (List.cons_ne_nil q ns) hns), if_neg hback, if_neg hplain, hparts,
    if_neg hsegs]
  exact if_neg hcolon

/-- What the writer puts into the pointer. -/
theorem Laid.dhRelativeKey_eq (h : Laid ps bs stamp k) (hbs : Cleaned false bs.reverse) :
    dhRelativeKey k.latest k.index = .ok (joinSlash ["snapshots", stamp, "index.json"]) := by
  have hdir : dir k.latest = text false bs := by
    rw [h.latest]
    exact dir_joinSlash (hbs.append_plain (plain_cons (by decide) plain_nil))
  simp only [dhRelativeKey, hdir, text, Bool.false_eq_true, if_false]
  by_cases hnil : bs = []
  · rw [if_pos hnil, if_pos rfl, h.index, hnil, List.nil_append]
  · rw [if_neg hnil, if_neg (hbs.joinSlash_ne hnil).2, h.index,
      joinSlash_append hnil (List.cons_ne_nil _ _), cutPrefix_append]

/-- A reader gets the index back that the writer has put into the pointer. -/
theorem Laid.latestIndexKey_eq (h : Laid ps bs stamp k) (hbs : Cleaned false bs.reverse)
    (hstamp : Plain stamp) (hchars : ∀ c ∈ stamp.toList, IsStampChar c) {l : DHLatest}
    (hl : l.index = joinSlash ["snapshots", stamp, "index.json"]) :
    latestIndexKey k.latest l = .ok k.index := by
  have hfile := plain_cons (show Plain "index.json" by decide) plain_nil
  have hnames := plain_cons (show Plain "snapshots" by decide) (plain_cons hstamp hfile)
  have hcleaned := hbs.append_plain hnames
  have hall : ∀ p ∈ ["snapshots", stamp, "index.json"], ∀ c ∈ p.toList, PointerChar c := by
    refine List.forall_mem_cons.2 ⟨?_, List.forall_mem_cons.2
      ⟨fun c hc => pointerChar_of_isStampChar (hchars c hc), List.forall_mem_cons.2 ⟨?_, by simp⟩⟩⟩
    · have hname : ("snapshots".toList.all fun c => decide (PointerChar c)) = true := by decide
      exact fun c hc => of_decide_eq_true (List.all_eq_true.1 hname c hc)
    · have hname : ("index.json".toList.all fun c => decide (PointerChar c)) = true := by decide
      exact fun c hc => of_decide_eq_true (List.all_eq_true.1 hname c hc)
  rw [latestIndexKey_joinSlash k.latest hl hnames (by decide) hall]
  have hdir : dir k.latest = text false bs := by
    rw [h.latest]
    exact dir_joinSlash (hbs.append_plain (plain_cons (by decide) plain_nil))
  have hclean : clean (text false bs) = text false bs := by
    have hns := names_text hbs
    rw [clean_eq_text, hns.1, hns.2]
  rw [hdir, join_within hclean (List.cons_ne_nil _ _) hnames, ← text_append hbs (by simp), h.index,
    text]
  simp

end

/-! ## The prefix of a destination -/

theorem plain_of_keptSegments {p : String} {segs kept : List String}
    (hsegs : ∀ q ∈ segs, '/' ∉ q.toList) (h : keptSegments p segs = .ok kept) :
    ∀ q ∈ kept, Plain q := by
  induction segs generalizing kept with
  | nil =>
    cases h
    exact plain_nil
  | cons seg segs ih =>
    have hrest := fun q hq => hsegs q (List.mem_cons_of_mem seg hq)
    have hslash : '/' ∉ (trimSpace seg).toList := by
      obtain ⟨lead, trail, htext, -, -⟩ := exists_trim seg.toList
      intro hmem
      rw [trimSpace, String.toList_ofList] at hmem
      apply hsegs seg List.mem_cons_self
      rw [htext]
      exact List.mem_append_right _ (List.mem_append_left _ hmem)
    simp only [keptSegments] at h
    split at h
    · exact ih hrest h
    · next hempty =>
      split at h
      · cases h
      · next hdots =>
        rw [not_or] at hdots
        cases hks : keptSegments p segs with
        | error e =>
          rw [hks] at h
          cases h
        | ok ks =>
          rw [hks] at h
          cases h
          exact plain_cons (plain_of_ne hempty hdots.1 hdots.2 hslash) (ih hrest hks)

/-- The root of a layout is the prefix it was made for, once that has been cleaned. -/
theorem trimSlashes_cleanKeyPrefix {raw keyPrefix : String}
    (h : cleanKeyPrefix raw = .ok keyPrefix) :
    joinSlash (names (trimSlashes keyPrefix)) = keyPrefix := by
  simp only [cleanKeyPrefix] at h
  cases hks : keptSegments raw
      (parts (String.ofList (raw.toList.map fun c => if c = '\\' then '/' else c))) with
  | error e =>
    rw [hks] at h
    cases h
  | ok ks =>
    rw [hks] at h
    cases h
    have hplain := plain_of_keptSegments (fun q hq => not_mem_of_mem_parts hq) hks
    have hcleaned : Cleaned false ks.reverse :=
      cleaned_of_plain false fun q hq => hplain q (List.mem_reverse.1 hq)
    by_cases hnil : ks = []
    · subst hnil
      decide
    · have htrim := trimSlashes_joinSlash hcleaned "" (by simp) hnil
      rw [String.append_empty] at htrim
      rw [htrim, hcleaned.names_joinSlash]

/-! ## The pointer and the layout -/

/-- A pointer is refused or leads to names behind the folder it is in; and in every layout the
pointer of the writer leads to the index, the parts are where the index has them, and every key
is under the root, which is the prefix of the destination. -/
theorem latest_pointer :
    (∀ latestKey l key, latestIndexKey latestKey l = .ok key → ∃ ns, ns ≠ [] ∧
      (∀ q ∈ ns, Plain q) ∧ key = within (dir latestKey) ++ joinSlash ns ∧
        (clean latestKey = latestKey → key = folderOf latestKey ++ joinSlash ns)) ∧
    ∀ keyPrefix token t keys, snapshotKeys keyPrefix token (snapshotTime t) = .ok keys →
      (∃ rel, dhRelativeKey keys.latest keys.index = .ok rel ∧
        ∀ format createdAt, latestIndexKey keys.latest ⟨format, createdAt, rel⟩ = .ok keys.index) ∧
      join [dir keys.index, keys.partsBase] ++ "/" = keys.partsPrefix ∧
      (∀ key, InLayout keys key → UnderRoot keys.root key) ∧
      ∀ raw, cleanKeyPrefix raw = .ok keyPrefix → keys.root = keyPrefix := by
  constructor
  · intro latestKey l key h
    obtain ⟨ns, hne, hns, -, rfl⟩ := exists_of_latestIndexKey h
    have hdir : clean (dir latestKey) = dir latestKey := by
      rw [dir_eq, clean_clean]
    have hkey := join_within hdir hne hns
    refine ⟨ns, hne, hns, hkey, fun hclean => ?_⟩
    rw [hkey, within_dir hclean]
  · intro keyPrefix token t keys h
    have hstamp := plain_dhFolderStamp t
    obtain ⟨htoks, hbase, hlaid⟩ := laid_snapshotKeys h hstamp
    have hps := cleaned_names (trimSlashes keyPrefix)
    rw [trimSlashes_rooted] at hps
    have hbs := hps.append_plain htoks
    refine ⟨⟨_, hlaid.dhRelativeKey_eq hbs, fun format createdAt => ?_⟩,
      hlaid.join_partsBase hps htoks hstamp hbase,
      fun key hkey => hlaid.underRoot hps htoks hstamp hkey, fun raw hraw => ?_⟩
    · exact hlaid.latestIndexKey_eq hbs hstamp (fun _ => isStampChar_dhFolderStamp) rfl
    · rw [hlaid.root_eq hps, trimSlashes_cleanKeyPrefix hraw]

/-- The pointer of a private layout below a prefix. -/
theorem latest_pointer_private :
    let t : UTCTime := ⟨2026, 10, 11, 4, 0, 0⟩
    (∃ ns, ns ≠ [] ∧ (∀ q ∈ ns, Plain q) ∧
      "dh/tok/snapshots/x/index.json" = within (dir "dh/tok/latest.json") ++ joinSlash ns) ∧
    ∃ keys, snapshotKeys "dh" "tok" (snapshotTime t) = .ok keys ∧ keys.root = "dh" ∧
      ∃ rel, dhRelativeKey keys.latest keys.index = .ok rel ∧
        latestIndexKey keys.latest ⟨1, formatDHCreatedAt t, rel⟩ = .ok keys.index := by
  intro t
  constructor
  · obtain ⟨ns, hne, hns, hkey, -⟩ := latest_pointer.1 "dh/tok/latest.json"
      ⟨1, "", "snapshots/x/index.json"⟩ "dh/tok/snapshots/x/index.json" (by decide +kernel)
    exact ⟨ns, hne, hns, hkey⟩
  · have hkeys : snapshotKeys "dh" "tok" (snapshotTime t) = .ok _ := rfl
    obtain ⟨⟨rel, hrel, hback⟩, -, -, hroot⟩ := latest_pointer.2 "dh" "tok" t _ hkeys
    exact ⟨_, hkeys, hroot "dh" (by decide +kernel), rel, hrel, hback 1 _⟩

end Konnekt.Snapshots

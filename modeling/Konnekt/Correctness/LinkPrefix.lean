import Mathlib
import Konnekt.Correctness.LatestPointer
import Konnekt.Snapshots.Destination

/-!
# The prefix that is recorded

A publish joins the prefixes and cleans the path of each key; the record keeps the names of
the same prefix with spaces, backslashes and dots cleaned as typed text is. The two lead to
the same keys if every name of the destination's prefix is left as it is.
-/

namespace Konnekt.Snapshots

open Go Path

/-! ## Slashes at the ends -/

theorem trimSlashes_trimSlashes (s : String) : trimSlashes (trimSlashes s) = trimSlashes s := by
  have h := trimWith_trimWith (p := (· == '/')) s.toList
  rw [trimSlashes, trimSlashes, String.toList_ofList]
  exact congrArg String.ofList h

/-- Slashes at the ends are no names. -/
theorem names_trimSlashes (s : String) : names (trimSlashes s) = cleanParts false (parts s) := by
  have hlead := List.takeWhile_append_dropWhile (p := (· == '/')) (l := s.toList)
  have htrail := List.takeWhile_append_dropWhile (p := (· == '/'))
    (l := (s.toList.dropWhile (· == '/')).reverse)
  have hslashes : ∀ l : List Char, l.takeWhile (· == '/') =
      List.replicate (l.takeWhile (· == '/')).length '/' := fun l =>
    List.eq_replicate_iff.2 ⟨rfl, fun c hc => by simpa using List.mem_takeWhile_imp hc⟩
  obtain ⟨a, ha⟩ : ∃ a, s.toList.takeWhile (· == '/') = List.replicate a '/' := ⟨_, hslashes _⟩
  obtain ⟨b, hb⟩ : ∃ b, (s.toList.dropWhile (· == '/')).reverse.takeWhile (· == '/') =
      List.replicate b '/' := ⟨_, hslashes _⟩
  have htext : s = String.ofList (List.replicate a '/') ++ trimSlashes s ++
      String.ofList (List.replicate b '/') := by
    have hback := congrArg List.reverse htrail
    rw [List.reverse_append, List.reverse_reverse, hb, List.reverse_replicate] at hback
    rw [← String.toList_inj, String.toList_append, String.toList_append, String.toList_ofList,
      String.toList_ofList, trimSlashes, String.toList_ofList, List.append_assoc, hback, ← ha,
      hlead]
  conv_rhs => rw [htext, parts_trailing, parts_leading, cleanParts_empties]
  rw [names, trimSlashes_rooted]

/-! ## What is kept of a prefix -/

theorem keptSegments_eq_ok {p : String} {segs ks : List String} : keptSegments p segs = .ok ks ↔
    (∀ q ∈ segs, trimSpace q ≠ "." ∧ trimSpace q ≠ "..") ∧
      ks = (segs.map trimSpace).filter (· ≠ "") := by
  induction segs generalizing ks with
  | nil => simp [keptSegments, eq_comm]
  | cons seg segs ih =>
    rw [keptSegments, List.forall_mem_cons, List.map_cons]
    by_cases hempty : trimSpace seg = ""
    · rw [if_pos hempty, ih, List.filter_cons_of_neg (by simpa using hempty), hempty]
      simp
    · rw [if_neg hempty, List.filter_cons_of_pos (by simpa using hempty)]
      by_cases hdots : trimSpace seg = "." ∨ trimSpace seg = ".."
      · rw [if_pos hdots]
        refine iff_of_false (fun h => by cases h) fun h => ?_
        exact hdots.elim h.1.1.1 h.1.1.2
      · rw [if_neg hdots]
        rw [not_or] at hdots
        cases hks : keptSegments p segs with
        | error e =>
          refine iff_of_false (fun h => by cases h) fun h => ?_
          have hok := ih.2 ⟨h.1.2, rfl⟩
          rw [hks] at hok
          cases hok
        | ok kept =>
          have hkept := ih.1 hks
          rw [← hkept.2]
          exact ⟨fun h => ⟨⟨hdots, hkept.1⟩, (Except.ok.inj h).symm⟩,
            fun h => congrArg Except.ok h.2.symm⟩

/-- A name that is kept as it is: no spaces around it, no backslash, and not one of the dots. -/
def TidyName (q : String) : Prop :=
  trimSpace q = q ∧ '\\' ∉ q.toList ∧ q ≠ "." ∧ q ≠ ".."

instance : DecidablePred TidyName := fun q =>
  inferInstanceAs (Decidable (trimSpace q = q ∧ '\\' ∉ q.toList ∧ q ≠ "." ∧ q ≠ ".."))

/-- Backslashes as slashes. -/
def slashes (s : String) : String :=
  String.ofList (s.toList.map fun c => if c = '\\' then '/' else c)

theorem cleanKeyPrefix_eq_ok {p clean : String} : cleanKeyPrefix p = .ok clean ↔
    (∀ q ∈ parts (slashes p), trimSpace q ≠ "." ∧ trimSpace q ≠ "..") ∧
      clean = joinSlash (((parts (slashes p)).map trimSpace).filter (· ≠ "")) := by
  rw [cleanKeyPrefix]
  change Except.map joinSlash (keptSegments p (parts (slashes p))) = .ok clean ↔ _
  cases hks : keptSegments p (parts (slashes p)) with
  | error e =>
    refine iff_of_false (fun h => by cases h) fun h => ?_
    have hok := (@keptSegments_eq_ok p _ _).2 ⟨h.1, rfl⟩
    rw [hks] at hok
    cases hok
  | ok ks =>
    have hkept := keptSegments_eq_ok.1 hks
    rw [← hkept.2]
    exact ⟨fun h => ⟨hkept.1, (Except.ok.inj h).symm⟩, fun h => congrArg Except.ok h.2.symm⟩

theorem slashes_of_not_mem {s : String} (h : '\\' ∉ s.toList) : slashes s = s := by
  have hmap : s.toList.map (fun c => if c = '\\' then '/' else c) = s.toList := by
    refine (List.map_congr_left fun c hc => ?_).trans (List.map_id _)
    rw [if_neg]
    · rfl
    · rintro rfl
      exact h hc
  rw [slashes, hmap, String.ofList_toList]

theorem not_mem_slashes (s : String) : '\\' ∉ (slashes s).toList := by
  rw [slashes, String.toList_ofList, List.mem_map]
  rintro ⟨c, -, hc⟩
  split at hc
  · exact absurd hc (by decide)
  · next hne => exact hne hc

theorem slashes_joinSlash (ps : List String) :
    slashes (joinSlash ps) = joinSlash (ps.map slashes) := by
  induction ps with
  | nil => rfl
  | cons p ps ih =>
    by_cases hnil : ps = []
    · subst hnil
      rfl
    · have hmap : ps.map slashes ≠ [] := by simpa using hnil
      rw [List.map_cons, ← String.toList_inj, toList_joinSlash_cons _ hmap, ← ih, slashes,
        String.toList_ofList, toList_joinSlash_cons p hnil]
      simp [slashes]

/-- A name without backslashes is one after they are replaced, too. -/
theorem mem_parts_slashes {s q : String} (hq : q ∈ parts s) (h : '\\' ∉ q.toList) :
    q ∈ parts (slashes s) := by
  have hparts : parts (slashes s) = ((parts s).map slashes).flatMap parts := by
    conv_lhs => rw [← joinSlash_parts s, slashes_joinSlash]
    exact parts_joinSlash_flatMap (by simpa using parts_ne_nil s)
  rw [hparts, List.mem_flatMap]
  refine ⟨slashes q, List.mem_map_of_mem hq, ?_⟩
  rw [slashes_of_not_mem h]
  have hself := @parts_joinSlash [q] (by simp) (by simpa using not_mem_of_mem_parts hq)
  rw [joinSlash] at hself
  rw [hself]
  exact List.mem_singleton_self q

theorem tidyName_of_kept {s q : String}
    (h : ∀ q ∈ parts (slashes s), trimSpace q ≠ "." ∧ trimSpace q ≠ "..")
    (hq : q ∈ ((parts (slashes s)).map trimSpace).filter (· ≠ "")) : TidyName q ∧ Plain q := by
  rw [List.mem_filter] at hq
  obtain ⟨seg, hseg, rfl⟩ := List.mem_map.1 hq.1
  have hsub : ∀ c ∈ (trimSpace seg).toList, c ∈ seg.toList := by
    intro c hc
    rw [trimSpace, String.toList_ofList, trim_eq_trimWith] at hc
    exact trimWith_subset _ _ hc
  refine ⟨⟨trimSpace_trimSpace seg, fun hmem => ?_, h seg hseg⟩, ?_⟩
  · exact not_mem_slashes s (mem_of_mem_parts hseg (hsub _ hmem))
  · exact plain_of_ne (by simpa using hq.2) (h seg hseg).1 (h seg hseg).2
      fun hmem => not_mem_of_mem_parts hseg (hsub _ hmem)

/-! ## The names that are recorded -/

theorem cleaned_of_plain_names {ks : List String} (h : ∀ q ∈ ks, Plain q) :
    Cleaned false ks.reverse := cleaned_of_plain false fun q hq => h q (List.mem_reverse.1 hq)

theorem names_of_kept {ks : List String} (hne : ks ≠ []) (h : ∀ q ∈ ks, Plain q) :
    names (trimSlashes (joinSlash ks)) = ks := by
  have hcleaned := cleaned_of_plain_names h
  have htrim := trimSlashes_joinSlash hcleaned "" (by simp) hne
  rw [String.append_empty] at htrim
  rw [htrim, hcleaned.names_joinSlash]

/-- The record has a prefix, and it names what the published one does. -/
def SameNames (p : String) : Prop :=
  ∃ clean, cleanKeyPrefix p = .ok clean ∧ clean ≠ "" ∧
    names (trimSlashes clean) = names (trimSlashes p)

/-- A prefix is recorded under the names it is published under exactly if each of them is kept. -/
theorem sameNames_iff (p : String) :
    SameNames p ↔ (∃ q ∈ parts p, q ≠ "") ∧ ∀ q ∈ parts p, TidyName q := by
  constructor
  · rintro ⟨clean, hclean, hne, hnames⟩
    obtain ⟨hdots, hjoin⟩ := cleanKeyPrefix_eq_ok.1 hclean
    obtain rfl := hjoin.symm
    have hkept := fun q hq => @tidyName_of_kept p q hdots hq
    have hks : ((parts (slashes p)).map trimSpace).filter (· ≠ "") ≠ [] := by
      intro hnil
      rw [hnil] at hne
      exact hne rfl
    rw [names_of_kept hks fun q hq => (hkept q hq).2, names_trimSlashes] at hnames
    have hplain : ∀ q ∈ parts p, q ≠ "." ∧ q ≠ ".." := by
      intro q hq
      constructor
      · rintro rfl
        exact (hdots "." (mem_parts_slashes hq (by decide))).1 (by decide)
      · rintro rfl
        exact (hdots ".." (mem_parts_slashes hq (by decide))).2 (by decide)
    rw [cleanParts_of_no_dots hplain] at hnames
    refine ⟨?_, fun q hq => ?_⟩
    · rw [hnames] at hks
      obtain ⟨q, hq⟩ := List.exists_mem_of_ne_nil _ hks
      rw [List.mem_filter] at hq
      exact ⟨q, hq.1, by simpa using hq.2⟩
    · by_cases hempty : q = ""
      · subst hempty
        decide
      · refine (hkept q ?_).1
        rw [hnames, List.mem_filter]
        exact ⟨hq, by simpa using hempty⟩
  · rintro ⟨⟨q, hq, hne⟩, htidy⟩
    have hslash : slashes p = p := by
      apply slashes_of_not_mem
      intro hmem
      rw [← joinSlash_parts p] at hmem
      obtain hslash | ⟨r, hr, hc⟩ := mem_joinSlash hmem
      · exact absurd hslash (by decide)
      · exact (htidy r hr).2.1 hc
    have htrim : (parts p).map trimSpace = parts p :=
      (List.map_congr_left fun r hr => (htidy r hr).1).trans (List.map_id _)
    have hkept : ∀ r ∈ (parts p).filter (· ≠ ""), Plain r := by
      intro r hr
      rw [List.mem_filter] at hr
      have ht := htidy r hr.1
      exact plain_of_ne (by simpa using hr.2) ht.2.2.1 ht.2.2.2 (not_mem_of_mem_parts hr.1)
    have hks : (parts p).filter (· ≠ "") ≠ [] :=
      List.ne_nil_of_mem (List.mem_filter.2 ⟨hq, by simpa using hne⟩)
    refine ⟨joinSlash ((parts p).filter (· ≠ "")), ?_, joinSlash_ne_empty hks hkept, ?_⟩
    · rw [cleanKeyPrefix_eq_ok, hslash, htrim]
      refine ⟨fun r hr => ?_, rfl⟩
      rw [(htidy r hr).1]
      exact (htidy r hr).2.2
    · rw [names_of_kept hks hkept, names_trimSlashes,
        cleanParts_of_no_dots fun r hr => (htidy r hr).2.2]

/-- What is published under a prefix is found by what is recorded of it: whatever the record was,
Copy link has the address of the pointer that was written, and a change moves the base it is in. -/
def FindsPublished (p : String) : Prop :=
  ∀ (r : DHLinkRecord) (t : UTCTime) (keys : SnapshotKeys),
    snapshotKeys p r.token (snapshotTime t) = .ok keys →
      (r.noted p).getSnapshotLink = .ok keys.latest ∧
      ∃ base, (r.noted p).movedBase = some base ∧ base.latest = keys.latest ∧
        base.snapshotsPrefix = keys.snapshotsPrefix

/-- Two prefixes have the same base if they name the same. -/
theorem base_of_sameNames {p p' token : String} {t t' : UTCTime} {keys : SnapshotKeys}
    (hnames : names (trimSlashes p') = names (trimSlashes p))
    (h : snapshotKeys p token (snapshotTime t) = .ok keys) :
    ∃ base, snapshotKeys p' token (snapshotTime t') = .ok base ∧ base.latest = keys.latest ∧
      base.snapshotsPrefix = keys.snapshotsPrefix := by
  obtain ⟨htoks, -, hlaid⟩ := laid_snapshotKeys h (plain_dhFolderStamp t)
  have hvalid : ¬ (token ≠ "" ∧ ¬ isDHToken token = true) := by
    intro hbad
    rw [snapshotKeys, if_pos hbad] at h
    cases h
  obtain ⟨base, hbase⟩ : ∃ base, snapshotKeys p' token (snapshotTime t') = .ok base :=
    ⟨_, if_neg hvalid⟩
  obtain ⟨-, -, hlaid'⟩ := laid_snapshotKeys hbase (plain_dhFolderStamp t')
  have hps := cleaned_names (trimSlashes p)
  rw [trimSlashes_rooted] at hps
  have hbs := hps.append_plain htoks
  rw [hnames] at hlaid'
  refine ⟨base, hbase, hlaid'.latest.trans hlaid.latest.symm, ?_⟩
  rw [hlaid'.snapshotsPrefix_eq hbs (plain_dhFolderStamp t'),
    hlaid.snapshotsPrefix_eq hbs (plain_dhFolderStamp t)]

theorem names_of_latest {p p' token : String} {t t' : UTCTime} {keys base : SnapshotKeys}
    (h : snapshotKeys p token (snapshotTime t) = .ok keys)
    (hbase : snapshotKeys p' token (snapshotTime t') = .ok base)
    (hlatest : base.latest = keys.latest) :
    names (trimSlashes p') = names (trimSlashes p) := by
  obtain ⟨htoks, -, hlaid⟩ := laid_snapshotKeys h (plain_dhFolderStamp t)
  obtain ⟨-, -, hlaid'⟩ := laid_snapshotKeys hbase (plain_dhFolderStamp t')
  have hcleaned : ∀ s, Cleaned false (names (trimSlashes s) ++ tokenNames token ++
      ["latest.json"]).reverse := by
    intro s
    have hps := cleaned_names (trimSlashes s)
    rw [trimSlashes_rooted] at hps
    exact (hps.append_plain htoks).append_plain
      (plain_cons (show Plain "latest.json" by decide) plain_nil)
  rw [hlaid.latest, hlaid'.latest] at hlatest
  have hnames := congrArg names hlatest
  rw [(hcleaned p').names_joinSlash, (hcleaned p).names_joinSlash] at hnames
  exact List.append_cancel_right (List.append_cancel_right hnames)

theorem exists_publicKeys (p : String) (time : SnapshotTime) :
    ∃ keys, snapshotKeys p "" time = .ok keys := ⟨_, if_neg fun h => h.1 rfl⟩

theorem findsPublished_iff (p : String) : FindsPublished p ↔ SameNames p := by
  constructor
  · intro h
    obtain ⟨keys, hkeys⟩ := exists_publicKeys p (snapshotTime unixEpoch)
    have hlink := (h ⟨"", "", "", []⟩ unixEpoch keys hkeys).1
    rw [DHLinkRecord.noted, DHLinkRecord.recordLinkPrefix] at hlink
    cases hclean : cleanKeyPrefix p with
    | error e =>
      rw [hclean] at hlink
      cases hlink
    | ok clean =>
      rw [hclean] at hlink
      change DHLinkRecord.getSnapshotLink ⟨"", "", clean, []⟩ = _ at hlink
      rw [DHLinkRecord.getSnapshotLink] at hlink
      split at hlink
      · cases hlink
      · next hne =>
        refine ⟨clean, hclean, hne, ?_⟩
        obtain ⟨base, hbase⟩ := exists_publicKeys clean (snapshotTime unixEpoch)
        change (dhBaseKeys clean "").map (·.latest) = _ at hlink
        rw [show dhBaseKeys clean "" = .ok base from hbase] at hlink
        exact names_of_latest hkeys hbase (Except.ok.inj hlink)
  · rintro ⟨clean, hclean, hne, hnames⟩ r t keys hkeys
    have hnoted : r.noted p = { r with keyPrefix := clean } := by
      rw [DHLinkRecord.noted, DHLinkRecord.recordLinkPrefix, hclean]
      rfl
    obtain ⟨base, hbase, hlatest, hfolder⟩ :=
      @base_of_sameNames p clean r.token t unixEpoch keys hnames hkeys
    have hbase' : dhBaseKeys clean r.token = .ok base := hbase
    rw [hnoted, DHLinkRecord.getSnapshotLink, DHLinkRecord.movedBase]
    dsimp only
    rw [if_neg hne, if_pos hne, hbase']
    exact ⟨congrArg Except.ok hlatest, base, rfl, hlatest, hfolder⟩

/-! ## The prefixes of a destination and of a node -/

theorem tidyName_parts_clean {raw clean : String} (h : cleanKeyPrefix raw = .ok clean) :
    (∀ q ∈ parts clean, TidyName q) ∧ trimSlashes clean = clean ∧
      (clean ≠ "" → ∃ q ∈ parts clean, q ≠ "") := by
  obtain ⟨hdots, hjoin⟩ := cleanKeyPrefix_eq_ok.1 h
  obtain rfl := hjoin.symm
  have hkept := fun q hq => @tidyName_of_kept raw q hdots hq
  generalize ((parts (slashes raw)).map trimSpace).filter (· ≠ "") = ks at hkept
  by_cases hnil : ks = []
  · subst hnil
    exact ⟨by decide, by decide, fun hne => absurd rfl hne⟩
  · have hplain := fun q hq => (hkept q hq).2
    have htrim := trimSlashes_joinSlash (cleaned_of_plain_names hplain) "" (by simp) hnil
    rw [String.append_empty] at htrim
    rw [parts_joinSlash hnil fun q hq => (hplain q hq).2]
    refine ⟨fun q hq => (hkept q hq).1, htrim, fun _ => ?_⟩
    obtain ⟨q, hq⟩ := List.exists_mem_of_ne_nil ks hnil
    exact ⟨q, hq, (hplain q hq).ne_empty⟩

theorem exists_part_of_trimmed {s : String} (h : trimSlashes s = s) (hne : s ≠ "") :
    ∃ q ∈ parts s, q ≠ "" := by
  by_contra hempty
  push Not at hempty
  have hall : ∀ c ∈ s.toList, c = '/' := by
    intro c hc
    rw [← joinSlash_parts s] at hc
    obtain hslash | ⟨q, hq, hmem⟩ := mem_joinSlash hc
    · exact hslash
    · rw [hempty q hq] at hmem
      cases hmem
  have hdrop : s.toList.dropWhile (· == '/') = [] :=
    List.dropWhile_eq_nil_iff.2 fun c hc => by simpa using hall c hc
  rw [trimSlashes, hdrop] at h
  exact hne h.symm

theorem joinKey_pair {p q : String} (hp : trimSlashes p = p) (hq : trimSlashes q = q) :
    joinKey [p, q] = if p = "" then q else if q = "" then p else p ++ "/" ++ q := by
  rw [joinKey, List.map_cons, List.map_cons, List.map_nil, hp, hq]
  by_cases hpe : p = ""
  · by_cases hqe : q = ""
    · simp [hpe, hqe, joinSlash]
    · simp [hpe, hqe, joinSlash]
  · by_cases hqe : q = ""
    · simp [hpe, hqe, joinSlash]
    · simp [hpe, hqe, joinSlash]

/-- The joined prefix is recorded under its names if the destination's is. -/
theorem sameNames_joinKey {p q raw : String} (hp : trimSlashes p = p)
    (hq : cleanKeyPrefix raw = .ok q) :
    SameNames (joinKey [p, q]) ↔ (p ≠ "" ∨ q ≠ "") ∧ ∀ seg ∈ parts p, TidyName seg := by
  obtain ⟨htidy, htrim, hsome⟩ := tidyName_parts_clean hq
  rw [sameNames_iff, joinKey_pair hp htrim]
  by_cases hpe : p = ""
  · subst hpe
    rw [if_pos rfl]
    constructor
    · rintro ⟨⟨seg, hseg, hne⟩, -⟩
      refine ⟨.inr ?_, by decide⟩
      rintro rfl
      have hempty : parts "" = [""] := by decide
      rw [hempty, List.mem_singleton] at hseg
      exact hne hseg
    · rintro ⟨hne, -⟩
      exact ⟨hsome (hne.resolve_left fun h => h rfl), htidy⟩
  · rw [if_neg hpe]
    obtain ⟨seg, hseg, hne⟩ := exists_part_of_trimmed hp hpe
    by_cases hqe : q = ""
    · rw [if_pos hqe]
      exact ⟨fun h => ⟨.inl hpe, h.2⟩, fun h => ⟨⟨seg, hseg, hne⟩, h.2⟩⟩
    · rw [if_neg hqe, parts_append]
      simp only [List.mem_append, or_imp, forall_and]
      exact ⟨fun h => ⟨.inl hpe, h.2.1⟩,
        fun h => ⟨⟨seg, .inl hseg, hne⟩, h.2, htidy⟩⟩

theorem keyPrefix_of_normalizeDestination {parseURL : String → Option ParsedURL}
    {typed d : Destination} (h : normalizeDestination parseURL typed = .ok d) :
    d.keyPrefix = trimSlashes (trimSpace typed.keyPrefix) := by
  simp only [normalizeDestination] at h
  split at h
  · cases h
  split at h
  · cases h
  split at h
  · cases h
  split at h
  · cases h
  obtain ⟨-, -, hd⟩ := except_bind_eq_ok.1 h
  split at hd
  · cases hd
    rfl
  split at hd
  · cases hd
  split at hd
  · cases hd
  cases hd
  rfl

/-- A snapshot published to a destination that was saved is found by the recorded prefix exactly if
it has a prefix and each name of the destination's own is kept as it is. -/
theorem findsPublished_saved_iff {parseURL : String → Option ParsedURL} {typed d : Destination}
    {raw nodePrefix : String} (hd : normalizeDestination parseURL typed = .ok d)
    (hnode : cleanKeyPrefix raw = .ok nodePrefix) :
    FindsPublished (joinKey [d.keyPrefix, nodePrefix]) ↔
      (d.keyPrefix ≠ "" ∨ nodePrefix ≠ "") ∧ ∀ seg ∈ parts d.keyPrefix, TidyName seg := by
  have htrim : trimSlashes d.keyPrefix = d.keyPrefix := by
    rw [keyPrefix_of_normalizeDestination hd, trimSlashes_trimSlashes]
  rw [findsPublished_iff, sameNames_joinKey htrim hnode]

/-! ## A saved bucket -/

/-- An address without a path. -/
def hostAddress (s : String) : Option ParsedURL :=
  (cutPrefix "https://" s).map fun host => ⟨"https", host, "", "", false⟩

/-- A bucket as it is typed, with this prefix. -/
def typedBucket (keyPrefix : String) : Destination where
  name := "Maps"
  endpoint := "s3.example.com"
  region := ""
  bucket := "world"
  keyPrefix := keyPrefix
  publicBaseURL := ""
  accessKeyID := "AKIA"
  secretSet := false
  privateLink := false

theorem findsPublished_saved_iff_maps :
    FindsPublished (joinKey ["maps", "dh"]) ↔
      ("maps" ≠ "" ∨ "dh" ≠ "") ∧ ∀ seg ∈ parts "maps", TidyName seg :=
  @findsPublished_saved_iff hostAddress (typedBucket "/maps/")
    { typedBucket "maps" with region := "auto" } "dh/" "dh" (by decide +kernel) (by decide +kernel)

/-- A prefix typed as a Windows path: the record has it with slashes. -/
theorem not_findsPublished_backslash :
    ∃ d, normalizeDestination hostAddress (typedBucket "maps\\dh") = .ok d ∧
      cleanKeyPrefix "" = .ok "" ∧ ¬ FindsPublished (joinKey [d.keyPrefix, ""]) := by
  refine ⟨{ typedBucket "maps\\dh" with region := "auto" }, by decide +kernel, by decide +kernel,
    fun h => ?_⟩
  have hlink := (h ⟨"", "", "", []⟩ unixEpoch _ rfl).1
  revert hlink
  decide +kernel

end Konnekt.Snapshots

import Konnekt.Go.Path

/-!
# Where a path leads

A path leads to a list of names below the root of the disk, from the directory it
is looked up in. Cleaning a path leaves where it leads as it is, and what a cleaned
path has as the text of a longer one below it leads below it too.
-/

namespace Go.Path

/-- `filepath.Dir`. -/
def dir (s : String) : String := clean (joinSlash ((parts s).dropLast ++ [""]))

/-- The names from the root of the disk to where a path leads, looked up in a directory. -/
def resolve (cwd : List String) (s : String) : List String :=
  cleanParts true (if rooted s then parts s else cwd ++ parts s)

/-! ## What cleaning leaves -/

/-- The parts of a path as cleaning leaves them, the last one first: names, and parents before
them unless the path is rooted. -/
structure Cleaned (rooted : Bool) (out : List String) : Prop where
  shape : ∃ names k, (∀ p ∈ names, Plain p) ∧ (rooted = true → k = 0) ∧
    out = names ++ List.replicate k ".."

variable {rooted' : Bool} {out : List String} {ps : List String}

theorem cleaned_nil (r : Bool) : Cleaned r [] :=
  ⟨[], 0, by simp, fun _ => rfl, rfl⟩

theorem cleaned_of_plain (r : Bool) (h : ∀ p ∈ out, Plain p) : Cleaned r out :=
  ⟨out, 0, h, fun _ => rfl, by simp⟩

theorem plain_of_ne {p : String} (hempty : p ≠ "") (hdot : p ≠ ".") (hup : p ≠ "..")
    (hslash : '/' ∉ p.toList) : Plain p :=
  ⟨by simp [hempty, hdot, hup], hslash⟩

theorem Cleaned.step {r : Bool} (h : Cleaned r out) {p : String} (hslash : '/' ∉ p.toList) :
    Cleaned r (cleanStep r out p) := by
  obtain ⟨names, k, hnames, hk, rfl⟩ := h.shape
  unfold cleanStep
  split
  · exact h
  · next hskip =>
    split
    · next hup =>
      cases names with
      | nil =>
        cases k with
        | zero =>
          cases r with
          | true => exact cleaned_nil true
          | false => exact ⟨[], 1, by simp, nofun, rfl⟩
        | succ k =>
          refine ⟨[], k + 2, by simp, fun hr => absurd (hk hr) (by omega), ?_⟩
          simp [List.replicate_succ]
      | cons q names =>
        have hq : q ≠ ".." := fun heq => (hnames q List.mem_cons_self).1 (by simp [heq])
        rw [List.cons_append]
        simp only [hq, if_false]
        exact ⟨names, k, fun p hp => hnames p (List.mem_cons_of_mem q hp), hk, rfl⟩
    · next hup =>
      rw [not_or] at hskip
      have hp : Plain p := plain_of_ne hskip.1 hskip.2 hup hslash
      refine ⟨p :: names, k, ?_, hk, rfl⟩
      exact List.forall_mem_cons.2 ⟨hp, hnames⟩

theorem Cleaned.foldl {r : Bool} (h : Cleaned r out) (hps : ∀ p ∈ ps, '/' ∉ p.toList) :
    Cleaned r (ps.foldl (cleanStep r) out) := by
  induction ps generalizing out with
  | nil => exact h
  | cons p ps ih =>
    exact ih (h.step (hps p List.mem_cons_self)) fun q hq => hps q (List.mem_cons_of_mem p hq)

/-- Cleaning what is clean leaves it as it is. -/
theorem Cleaned.foldl_reverse {r : Bool} (h : Cleaned r out) :
    out.reverse.foldl (cleanStep r) [] = out := by
  obtain ⟨names, k, hnames, hk, rfl⟩ := h.shape
  have hups : (List.replicate k "..").foldl (cleanStep r) [] = List.replicate k ".." := by
    cases r with
    | true => rw [hk rfl, List.replicate_zero, List.foldl_nil]
    | false =>
      clear hk h
      induction k with
      | zero => rfl
      | succ k ih =>
        rw [List.replicate_succ', List.foldl_append, ih]
        cases k with
        | zero => rfl
        | succ k => rw [← List.replicate_succ']; simp [cleanStep, List.replicate_succ]
  have hnames' : ∀ p ∈ names.reverse, Plain p := fun p hp => hnames p (List.mem_reverse.1 hp)
  rw [List.reverse_append, List.reverse_replicate, List.foldl_append, hups,
    foldl_cleanStep hnames', List.reverse_reverse]

theorem Cleaned.ne_empty {r : Bool} (h : Cleaned r out) {p : String} (hp : p ∈ out) :
    p ≠ "" ∧ p ≠ "." ∧ '/' ∉ p.toList := by
  obtain ⟨names, k, hnames, -, rfl⟩ := h.shape
  rcases List.mem_append.1 hp with hp | hp
  · obtain ⟨hmem, hslash⟩ := hnames p hp
    refine ⟨fun heq => hmem (by simp [heq]), fun heq => hmem (by simp [heq]), hslash⟩
  · rw [List.eq_of_mem_replicate hp]
    decide

theorem cleaned_cleanParts (r : Bool) (hps : ∀ p ∈ ps, '/' ∉ p.toList) :
    Cleaned r (cleanParts r ps).reverse := by
  rw [cleanParts, List.reverse_reverse]
  exact (cleaned_nil r).foldl hps

theorem cleanParts_cleanParts (r : Bool) (hps : ∀ p ∈ ps, '/' ∉ p.toList) :
    cleanParts r (cleanParts r ps) = cleanParts r ps := by
  have h := (cleaned_cleanParts r hps).foldl_reverse
  rw [List.reverse_reverse] at h
  rw [cleanParts, h, List.reverse_reverse]

/-! ## Cleaning and looking up -/

/-- Parts that are cleaned first lead to the same names. -/
theorem foldl_cleanParts (base : List String) (hps : ∀ p ∈ ps, '/' ∉ p.toList) :
    (cleanParts false ps).foldl (cleanStep true) base = ps.foldl (cleanStep true) base := by
  have hstep (out : List String) (hout : Cleaned false out) (p : String) :
      (cleanStep false out p).reverse.foldl (cleanStep true) base =
        cleanStep true (out.reverse.foldl (cleanStep true) base) p := by
    obtain ⟨names, k, hnames, -, rfl⟩ := hout.shape
    by_cases hskip : p = "" ∨ p = "."
    · have hsame (r : Bool) (out : List String) : cleanStep r out p = out := if_pos hskip
      rw [hsame, hsame]
    by_cases hup : p = ".."
    · subst hup
      cases names with
      | nil =>
        have hups : cleanStep false (List.replicate k "..") ".." = ".." :: List.replicate k ".." := by
          cases k <;> rfl
        rw [List.nil_append, hups, List.reverse_cons, List.foldl_append]
        rfl
      | cons q names =>
        have hq := hnames q List.mem_cons_self
        have hne : q ≠ ".." := fun heq => hq.1 (by simp [heq])
        have hpop : cleanStep false (q :: names ++ List.replicate k "..") ".." =
            names ++ List.replicate k ".." := by
          rw [List.cons_append]
          simp [cleanStep, hne]
        rw [hpop, List.cons_append, List.reverse_cons, List.foldl_append]
        simp only [List.foldl_cons, List.foldl_nil, cleanStep_of_plain hq]
        simp [cleanStep, hne]
    · have hpush (r : Bool) (out : List String) : cleanStep r out p = p :: out :=
        (if_neg hskip).trans (if_neg hup)
      rw [hpush, List.reverse_cons, List.foldl_append]
      rfl
  have hall (out : List String) (hout : Cleaned false out) :
      (ps.foldl (cleanStep false) out).reverse.foldl (cleanStep true) base =
        ps.foldl (cleanStep true) (out.reverse.foldl (cleanStep true) base) := by
    induction ps generalizing out with
    | nil => rfl
    | cons p ps ih =>
      rw [List.foldl_cons, List.foldl_cons, ← hstep out hout p]
      apply ih (fun q hq => hps q (List.mem_cons_of_mem p hq))
      exact hout.step (hps p List.mem_cons_self)
  exact hall [] (cleaned_nil false)

/-- The parts of a path after it is cleaned. -/
def names (s : String) : List String := cleanParts (rooted s) (parts s)

/-- The text of cleaned parts. -/
def text (r : Bool) (out : List String) : String :=
  if r then "/" ++ joinSlash out else if out = [] then "." else joinSlash out

theorem clean_eq_text (s : String) : clean s = text (rooted s) (names s) := rfl

theorem parts_slash (s : String) : parts ("/" ++ s) = "" :: parts s := by
  have hslash : '/' ∉ ([] : List Char) := by simp
  have h := splitChars_append hslash s.toList
  rw [parts, split, String.toList_append]
  change (splitChars '/' ('/' :: s.toList)).map String.ofList = _
  rw [List.nil_append] at h
  rw [h]
  rfl

theorem rooted_append {s : String} (h : s ≠ "") (t : String) : rooted (s ++ t) = rooted s := by
  have hne : s.toList ≠ [] := fun heq => h (String.toList_inj.1 heq)
  rw [rooted, rooted, String.toList_append, List.head?_append_of_ne_nil _ hne]

theorem rooted_slash (s : String) : rooted ("/" ++ s) = true := by
  rw [rooted, String.toList_append]
  rfl

theorem parts_append (s t : String) : parts (s ++ "/" ++ t) = parts s ++ parts t := by
  have htext : s ++ "/" ++ t = joinSlash (parts s ++ parts t) := by
    rw [joinSlash_append (parts_ne_nil s) (parts_ne_nil t), joinSlash_parts, joinSlash_parts]
  rw [htext, parts_joinSlash]
  · exact List.append_ne_nil_of_left_ne_nil (parts_ne_nil s) _
  · intro p hp
    rcases List.mem_append.1 hp with hp | hp
    · exact not_mem_of_mem_parts hp
    · exact not_mem_of_mem_parts hp

theorem cleanStep_empty (r : Bool) (out : List String) : cleanStep r out "" = out := if_pos (.inl rfl)

theorem cleanParts_empty_cons (r : Bool) (ps : List String) :
    cleanParts r ("" :: ps) = cleanParts r ps := by
  rw [cleanParts, List.foldl_cons, cleanStep_empty, cleanParts]

/-- Parts that are left alone are the parts of their text, as far as cleaning goes. -/
theorem parts_text {r : Bool} {out : List String} (h : Cleaned r out.reverse) :
    rooted (text r out) = r ∧ cleanParts r (parts (text r out)) = out := by
  have hself : cleanParts r out = out := by
    have h' := h.foldl_reverse
    rw [List.reverse_reverse] at h'
    rw [cleanParts, h', List.reverse_reverse]
  have hslash : ∀ p ∈ out, '/' ∉ p.toList := fun p hp => (h.ne_empty (List.mem_reverse.2 hp)).2.2
  by_cases hnil : out = []
  · subst hnil
    cases r <;> decide
  · have hparts := parts_joinSlash hnil hslash
    cases r with
    | true =>
      change rooted ("/" ++ joinSlash out) = true ∧ cleanParts true (parts ("/" ++ joinSlash out)) = out
      rw [parts_slash, hparts, cleanParts_empty_cons]
      exact ⟨rooted_slash _, hself⟩
    | false =>
      have htext : text false out = joinSlash out := by simp [text, hnil]
      rw [htext, hparts]
      refine ⟨?_, hself⟩
      obtain ⟨p, rest, rfl⟩ := List.exists_cons_of_ne_nil hnil
      have hp := h.ne_empty (List.mem_reverse.2 List.mem_cons_self)
      have hne : p.toList ≠ [] := fun heq => hp.1 (String.toList_inj.1 heq)
      have hhead : (joinSlash (p :: rest)).toList.head? = p.toList.head? := by
        cases rest with
        | nil => rfl
        | cons q rest =>
          rw [toList_joinSlash_cons p (List.cons_ne_nil q rest), List.head?_append_of_ne_nil _ hne]
      rw [rooted, hhead, beq_eq_false_iff_ne]
      intro hc
      exact hp.2.2 (List.mem_of_mem_head? (by simpa using hc))

section

variable (s : String)

private theorem slash_parts : ∀ p ∈ parts s, '/' ∉ p.toList := fun _ hp => not_mem_of_mem_parts hp

theorem rooted_clean : rooted (clean s) = rooted s :=
  (parts_text (cleaned_cleanParts (rooted s) (slash_parts s))).1

theorem cleanParts_clean :
    cleanParts (rooted s) (parts (clean s)) = cleanParts (rooted s) (parts s) :=
  (parts_text (cleaned_cleanParts (rooted s) (slash_parts s))).2

theorem clean_clean : clean (clean s) = clean s := by
  rw [clean_eq_text (clean s), names, rooted_clean, cleanParts_clean]
  rfl

end

/-! ## Below a directory -/

/-- Parts as text, with a slash behind each. -/
def slashed (ps : List String) : List Char := ps.flatMap fun p => p.toList ++ ['/']

theorem toList_joinSlash {ps : List String} (hne : ps ≠ []) :
    (joinSlash ps).toList ++ ['/'] = slashed ps := by
  induction ps with
  | nil => exact absurd rfl hne
  | cons p ps ih =>
    rw [slashed, List.flatMap_cons]
    by_cases hnil : ps = []
    · subst hnil
      simp [joinSlash]
    · rw [toList_joinSlash_cons p hnil, List.append_assoc, List.append_assoc]
      exact congrArg (p.toList ++ '/' :: ·) (ih hnil)

/-- One list of parts begins another when its text does, slashes included. -/
theorem prefix_of_slashed {ps qs : List String} (hps : ∀ p ∈ ps, '/' ∉ p.toList)
    (hqs : ∀ q ∈ qs, '/' ∉ q.toList) (h : slashed ps <+: slashed qs) : ps <+: qs := by
  induction ps generalizing qs with
  | nil => exact List.nil_prefix
  | cons p ps ih =>
    cases qs with
    | nil =>
      have hlen := h.length_le
      simp [slashed] at hlen
    | cons q qs =>
      obtain ⟨rest, hrest⟩ := h
      simp only [slashed, List.flatMap_cons, List.append_assoc, List.cons_append,
        List.nil_append] at hrest
      have hsplit := congrArg (splitChars '/') hrest
      rw [splitChars_append (hps p List.mem_cons_self),
        splitChars_append (hqs q List.mem_cons_self)] at hsplit
      obtain rfl : p = q := String.toList_inj.1 (List.cons.inj hsplit).1
      have htail := (List.cons.inj (List.append_cancel_left hrest)).2
      apply List.cons_prefix_cons.2
      refine ⟨rfl, ih (fun p' hp' => hps p' (List.mem_cons_of_mem _ hp'))
        (fun q' hq' => hqs q' (List.mem_cons_of_mem _ hq')) ⟨rest, htail⟩⟩

theorem slashed_of_prefix {ps qs : List String} (h : ps <+: qs) : slashed ps <+: slashed qs := by
  obtain ⟨rest, rfl⟩ := h
  exact ⟨slashed rest, List.flatMap_append.symm⟩

/-- A path whose last part, once it is cleaned, is a name. -/
def Named (s : String) : Prop := ∃ up p, names s = up ++ [p] ∧ Plain p

theorem Named.ne_empty {s : String} (h : Named s) : s ≠ "" := by
  rintro rfl
  obtain ⟨up, p, hnames, -⟩ := h
  have hnil : names "" = [] := by decide
  rw [hnil] at hnames
  exact absurd hnames.symm (by simp)

theorem cleaned_names (s : String) : Cleaned (rooted s) (names s).reverse :=
  cleaned_cleanParts (rooted s) (slash_parts s)

theorem names_ne_empty {s p : String} (h : p ∈ names s) : p ≠ "" ∧ p ≠ "." ∧ '/' ∉ p.toList :=
  (cleaned_names s).ne_empty (List.mem_reverse.2 h)

theorem names_clean (s : String) : names (clean s) = names s := by
  rw [names, rooted_clean, cleanParts_clean, names]

theorem toList_clean_slash {s : String} (h : names s ≠ []) :
    (clean s ++ "/").toList = (if rooted s then ['/'] else []) ++ slashed (names s) := by
  rw [clean_eq_text, ← toList_joinSlash h, text]
  cases rooted s with
  | true => simp
  | false =>
    simp [h]

/-- What joining a directory and a path leads to. -/
theorem names_join {d : String} (hd : d ≠ "") (name : String) :
    rooted (join [d, name]) = rooted d ∧
      names (join [d, name]) = cleanParts (rooted d) (parts d ++ parts name) ∧
      clean (join [d, name]) = join [d, name] := by
  have hjoin : join [d, name] = clean (joinSlash ([d, name].filter (· ≠ ""))) := by
    unfold join
    split
    · next heq => simp [hd] at heq
    · rfl
  rw [hjoin, names_clean, rooted_clean, clean_clean]
  by_cases hname : name = ""
  · subst hname
    have hfilter : [d, ""].filter (· ≠ "") = [d] := by simp [hd]
    rw [hfilter]
    refine ⟨rfl, ?_, rfl⟩
    change names d = cleanParts (rooted d) (parts d ++ [""])
    rw [names, cleanParts, cleanParts, List.foldl_append, List.foldl_cons, cleanStep_empty]
    rfl
  · have hfilter : [d, name].filter (· ≠ "") = [d, name] := by simp [hd, hname]
    have htext : joinSlash [d, name] = d ++ "/" ++ name := rfl
    have hrooted : rooted (d ++ "/" ++ name) = rooted d := by
      rw [String.append_assoc, rooted_append hd]
    rw [hfilter, htext, names, hrooted, parts_append]
    exact ⟨rfl, rfl, rfl⟩

/-- The names that a path leads to below the directory it is joined to. -/
def below (d name : String) : List String :=
  (cleanParts (rooted d) (parts d ++ parts name)).drop (names d).length

/-- The text of a directory begins that of a joined path when its names do. -/
theorem hasPrefix_join {d : String} (hd : Named d) (name : String) :
    (clean d ++ "/").toList <+: (clean (join [d, name]) ++ "/").toList ↔
      names d <+: names (join [d, name]) := by
  obtain ⟨hrooted, -, -⟩ := names_join hd.ne_empty name
  have hne : names d ≠ [] := by
    obtain ⟨up, p, hup, -⟩ := hd
    simp [hup]
  have hslash (s : String) : ∀ p ∈ names s, '/' ∉ p.toList := fun p hp => (names_ne_empty hp).2.2
  rw [toList_clean_slash hne]
  by_cases hnil : names (join [d, name]) = []
  · -- what is left is the root, or the directory of the process: neither has a name
    have hnot (p : String) (hp : '/' ∉ p.toList) (hleft : p = "" ∨ p = ".") :
        ¬ slashed (names d) <+: slashed [p] := by
      intro h
      obtain ⟨q, rest, hq⟩ := List.exists_cons_of_ne_nil hne
      have hpre := prefix_of_slashed (hslash d) (by simpa using hp) h
      rw [hq] at hpre
      obtain rfl := (List.cons_prefix_cons.1 hpre).1
      have hname := @names_ne_empty d q (by rw [hq]; exact List.mem_cons_self)
      exact hleft.elim hname.1 hname.2.1
    have hright : ¬ names d <+: names (join [d, name]) := by
      rw [hnil, List.prefix_nil]
      exact hne
    refine iff_of_false ?_ hright
    rw [clean_eq_text, hnil, hrooted]
    cases rooted d with
    | true =>
      intro h
      exact hnot "" (by decide) (.inl rfl) (List.cons_prefix_cons.1 h).2
    | false => exact hnot "." (by decide) (.inr rfl)
  · rw [toList_clean_slash hnil, hrooted, List.prefix_append_right_inj]
    exact ⟨prefix_of_slashed (hslash d) (hslash _), slashed_of_prefix⟩

theorem not_plain_up : ¬ Plain ".." := by decide

/-- Names behind a plain one are plain. -/
theorem plain_of_cleaned {r : Bool} {up rest : List String} {p : String}
    (h : Cleaned r (up ++ [p] ++ rest).reverse) (hp : Plain p) : ∀ q ∈ rest, Plain q := by
  obtain ⟨out, k, hout, -, heq⟩ := h.shape
  have hparts := congrArg List.reverse heq
  rw [List.reverse_reverse, List.reverse_append, List.reverse_replicate] at hparts
  rcases List.append_eq_append_iff.1 hparts with ⟨mid, hups, -⟩ | ⟨mid, -, hrest⟩
  · have hmem : p ∈ List.replicate k ".." := by
      rw [hups]
      simp
    rw [List.eq_of_mem_replicate hmem] at hp
    exact absurd hp not_plain_up
  · intro q hq
    apply hout
    rw [← List.mem_reverse, hrest]
    exact List.mem_append_right mid hq

theorem resolve_eq_names (cwd : List String) (s : String) :
    resolve cwd s = cleanParts true ((if rooted s then [] else cwd) ++ names s) := by
  cases hr : rooted s with
  | true =>
    rw [resolve, hr, if_pos rfl, if_pos rfl, List.nil_append, names, hr,
      cleanParts_cleanParts true (slash_parts s)]
  | false =>
    simp only [resolve, names, hr, Bool.false_eq_true, if_false, cleanParts, List.foldl_append]
    exact congrArg List.reverse (foldl_cleanParts _ (slash_parts s)).symm

theorem cleanParts_append_plain (r : Bool) (ps : List String) {qs : List String}
    (hqs : ∀ q ∈ qs, Plain q) : cleanParts r (ps ++ qs) = cleanParts r ps ++ qs := by
  rw [cleanParts, List.foldl_append, foldl_cleanStep hqs, List.reverse_append, List.reverse_reverse]
  rfl

/-- Where a joined path leads when its text begins with that of the directory. -/
theorem resolve_join {d name : String} (hd : Named d)
    (h : (clean d ++ "/").toList <+: (clean (join [d, name]) ++ "/").toList) :
    (∀ q ∈ below d name, Plain q) ∧ names (join [d, name]) = names d ++ below d name ∧
      ∀ cwd, resolve cwd (join [d, name]) = resolve cwd d ++ below d name := by
  obtain ⟨hrooted, hnames, -⟩ := names_join hd.ne_empty name
  have hpre := (hasPrefix_join hd name).1 h
  have hsplit : names (join [d, name]) = names d ++ below d name := by
    obtain ⟨rest, hrest⟩ := hpre
    rw [below, ← hnames, ← hrest, List.drop_left]
  have hplain : ∀ q ∈ below d name, Plain q := by
    obtain ⟨up, p, hup, hp⟩ := hd
    have hcleaned := cleaned_names (join [d, name])
    rw [hsplit, hup] at hcleaned
    exact plain_of_cleaned hcleaned hp
  refine ⟨hplain, hsplit, fun cwd => ?_⟩
  rw [resolve_eq_names, resolve_eq_names, hrooted, hsplit, ← List.append_assoc,
    cleanParts_append_plain true _ hplain]

/-- Joining a directory and a name. -/
theorem resolve_join_plain {d name : String} (hd : d ≠ "") (hname : Plain name)
    (cwd : List String) : resolve cwd (join [d, name]) = resolve cwd d ++ [name] ∧
      names (join [d, name]) = names d ++ [name] := by
  obtain ⟨hrooted, hnames, -⟩ := names_join hd name
  have hparts : parts name = [name] := by
    rw [parts, split, splitChars_of_not_mem hname.2, List.map_singleton, String.ofList_toList]
  have hplain : ∀ p ∈ [name], Plain p := by simpa using hname
  rw [hparts, cleanParts_append_plain _ _ hplain] at hnames
  refine ⟨?_, hnames⟩
  rw [resolve_eq_names, resolve_eq_names, hrooted, hnames]
  change cleanParts true (_ ++ (names d ++ [name])) = _
  rw [← List.append_assoc, cleanParts_append_plain true _ hplain]

theorem parts_of_clean {s : String} (hclean : clean s = s) (hne : names s ≠ []) :
    parts s = if rooted s then "" :: names s else names s := by
  have hslash : ∀ p ∈ names s, '/' ∉ p.toList := fun p hp => (names_ne_empty hp).2.2
  have htext : s = text (rooted s) (names s) := hclean.symm.trans (clean_eq_text s)
  cases hr : rooted s with
  | true =>
    rw [hr] at htext
    rw [if_pos rfl]
    conv_lhs => rw [htext]
    exact (parts_slash _).trans (congrArg ("" :: ·) (parts_joinSlash hne hslash))
  | false =>
    rw [hr] at htext
    rw [if_neg Bool.false_ne_true]
    conv_lhs => rw [htext]
    simp only [text, Bool.false_eq_true, if_false, hne]
    exact parts_joinSlash hne hslash

/-- The directory of a clean path that ends in a name. -/
theorem resolve_dir {s up : String} {ups : List String} (hclean : clean s = s)
    (hnames : names s = ups ++ [up]) (hup : Plain up) (cwd : List String) :
    resolve cwd (dir s) = (resolve cwd s).dropLast := by
  have hne : names s ≠ [] := by simp [hnames]
  have hslash : ∀ p ∈ names s, '/' ∉ p.toList := fun p hp => (names_ne_empty hp).2.2
  have hslash' : ∀ p ∈ ups ++ [""], '/' ∉ p.toList := by
    intro p hp
    rcases List.mem_append.1 hp with hp | hp
    · exact hslash p (by simp [hnames, hp])
    · rw [List.mem_singleton.1 hp]
      decide
  have hups : cleanParts (rooted s) ups = ups := by
    have hcleaned := cleaned_names s
    rw [hnames, List.reverse_append, List.reverse_singleton, List.singleton_append] at hcleaned
    obtain ⟨out, k, hout, hk, heq⟩ := hcleaned.shape
    have hshorter : Cleaned (rooted s) ups.reverse := by
      cases out with
      | nil =>
        have hmem : up ∈ List.replicate k ".." := by
          rw [← List.nil_append (List.replicate k ".."), ← heq]
          exact List.mem_cons_self
        rw [List.eq_of_mem_replicate hmem] at hup
        exact absurd hup not_plain_up
      | cons q out =>
        exact ⟨out, k, fun p hp => hout p (List.mem_cons_of_mem q hp), hk, (List.cons.inj heq).2⟩
    have h := hshorter.foldl_reverse
    rw [List.reverse_reverse] at h
    rw [cleanParts, h, List.reverse_reverse]
  have hdir : rooted (dir s) = rooted s ∧ names (dir s) = ups := by
    rw [dir, rooted_clean, names_clean, names, parts_of_clean hclean hne, hnames]
    cases hr : rooted s with
    | true =>
      have hdrop : ("" :: (ups ++ [up])).dropLast ++ [""] = "" :: (ups ++ [""]) := by
        rw [← List.cons_append, List.dropLast_concat, List.cons_append]
      have hrooted : rooted (joinSlash ("" :: (ups ++ [""]))) = true := by
        rw [joinSlash_cons "" (by simp), String.append_assoc]
        exact rooted_slash _
      rw [hr] at hups
      rw [if_pos rfl, hdrop, hrooted, parts_joinSlash (List.cons_ne_nil _ _)]
      · rw [cleanParts_empty_cons, cleanParts, List.foldl_append, List.foldl_cons, cleanStep_empty]
        exact ⟨rfl, hups⟩
      · exact List.forall_mem_cons.2 ⟨by decide, hslash'⟩
    | false =>
      have hrooted : rooted (joinSlash (ups ++ [""])) = false := by
        cases ups with
        | nil => decide
        | cons a ups =>
          have ha := @names_ne_empty s a (by simp [hnames])
          rw [List.cons_append, joinSlash_cons a (by simp), String.append_assoc,
            rooted_append ha.1, rooted, beq_eq_false_iff_ne]
          intro hc
          exact ha.2.2 (List.mem_of_mem_head? (by simpa using hc))
      rw [hr] at hups
      rw [if_neg Bool.false_ne_true, List.dropLast_concat, hrooted, parts_joinSlash (by simp)]
      · rw [cleanParts, List.foldl_append, List.foldl_cons, cleanStep_empty]
        exact ⟨rfl, hups⟩
      · exact hslash'
  have hlast : ∀ p ∈ [up], Plain p := by simpa using hup
  rw [resolve_eq_names, resolve_eq_names, hdir.1, hdir.2, hnames, ← List.append_assoc,
    cleanParts_append_plain true _ hlast, List.dropLast_concat]

end Go.Path

import Konnekt.Go.Resolve

/-!
# Relative paths as lists of names

What joining and taking the directory do to a relative path, read off the names the
path has once it is cleaned, and what the text of a joined path begins with.
-/

namespace Go.Path

variable {s : String} {ns qs : List String}

theorem slash_of_plain (hqs : ∀ q ∈ qs, Plain q) : ∀ q ∈ qs, '/' ∉ q.toList :=
  fun q hq => (hqs q hq).2

/-- Cleaned parts are cleaned to themselves. -/
theorem Cleaned.cleanParts_eq {r : Bool} (h : Cleaned r ns.reverse) : cleanParts r ns = ns := by
  have hfold := h.foldl_reverse
  rw [List.reverse_reverse] at hfold
  rw [cleanParts, hfold, List.reverse_reverse]

theorem Cleaned.slash {r : Bool} (h : Cleaned r ns.reverse) : ∀ p ∈ ns, '/' ∉ p.toList :=
  fun _ hp => (h.ne_empty (List.mem_reverse.2 hp)).2.2

/-- Names behind cleaned parts leave them cleaned. -/
theorem Cleaned.append_plain {r : Bool} (h : Cleaned r ns.reverse) (hqs : ∀ q ∈ qs, Plain q) :
    Cleaned r (ns ++ qs).reverse := by
  obtain ⟨out, k, hout, hk, heq⟩ := h.shape
  refine ⟨qs.reverse ++ out, k, ?_, hk, ?_⟩
  · intro p hp
    rcases List.mem_append.1 hp with hp | hp
    · exact hqs p (List.mem_reverse.1 hp)
    · exact hout p hp
  · rw [List.reverse_append, heq, List.append_assoc]

theorem Cleaned.rooted_joinSlash (h : Cleaned false ns.reverse) :
    rooted (joinSlash ns) = false := by
  cases ns with
  | nil => rfl
  | cons p ns =>
    obtain ⟨hp, -, hslash⟩ := h.ne_empty (List.mem_reverse.2 List.mem_cons_self)
    by_cases hnil : ns = []
    · subst hnil
      rw [joinSlash, rooted, beq_eq_false_iff_ne]
      exact fun hc => hslash (List.mem_of_mem_head? hc)
    · rw [joinSlash_cons p hnil, String.append_assoc, rooted_append hp, rooted,
        beq_eq_false_iff_ne]
      exact fun hc => hslash (List.mem_of_mem_head? hc)

/-- A relative path is its names. -/
theorem Cleaned.names_joinSlash (h : Cleaned false ns.reverse) : names (joinSlash ns) = ns := by
  rw [names, h.rooted_joinSlash]
  by_cases hnil : ns = []
  · subst hnil
    decide
  · rw [parts_joinSlash hnil h.slash, h.cleanParts_eq]

theorem Cleaned.joinSlash_ne (h : Cleaned false ns.reverse) (hne : ns ≠ []) :
    joinSlash ns ≠ "" ∧ joinSlash ns ≠ "." := by
  have hnames := h.names_joinSlash
  constructor
  · intro heq
    rw [heq] at hnames
    exact hne (hnames.symm.trans (by decide))
  · intro heq
    rw [heq] at hnames
    exact hne (hnames.symm.trans (by decide))

/-! ## Joining -/

theorem join_three (a : String) {b c : String} (hb : b ≠ "") (hc : c ≠ "") :
    join [a, b, c] = join [a, joinSlash [b, c]] := by
  have hbc : joinSlash [b, c] ≠ "" := by
    intro h
    have hlen := congrArg String.length h
    simp [joinSlash] at hlen
  by_cases ha : a = ""
  · subst ha
    have hleft : ["", b, c].filter (· ≠ "") = [b, c] := by simp [hb, hc]
    have hright : ["", joinSlash [b, c]].filter (· ≠ "") = [joinSlash [b, c]] := by simp [hbc]
    simp only [join, hleft, hright]
    rfl
  · have hleft : [a, b, c].filter (· ≠ "") = [a, b, c] := by simp [ha, hb, hc]
    have hright : [a, joinSlash [b, c]].filter (· ≠ "") = [a, joinSlash [b, c]] := by
      simp [ha, hbc]
    simp only [join, hleft, hright]
    simp only [joinSlash]

/-- Joining a relative path and another one that is not empty. -/
theorem join_relative (hs : rooted s = false) {t : String} (ht : t ≠ "")
    (hleft : cleanParts false (parts s ++ parts t) ≠ []) (htr : rooted t = false) :
    join [s, t] = joinSlash (cleanParts false (parts s ++ parts t)) := by
  by_cases hempty : s = ""
  · subst hempty
    have hfilter : ["", t].filter (· ≠ "") = [t] := by simp [ht]
    have hparts : cleanParts false (parts "" ++ parts t) = cleanParts false (parts t) :=
      cleanParts_empty_cons false (parts t)
    rw [hparts] at hleft ⊢
    simp only [join, hfilter, joinSlash, clean, htr, Bool.false_eq_true, if_false, hleft]
  · obtain ⟨hrooted, hnames, hclean⟩ := names_join hempty t
    rw [hs] at hrooted hnames
    rw [← hclean, clean_eq_text, hrooted, hnames, text]
    simp only [Bool.false_eq_true, if_false, hleft]

/-- Joining a relative path and plain names puts the names behind those of the path. -/
theorem join_names (hs : rooted s = false) (hne : qs ≠ []) (hqs : ∀ q ∈ qs, Plain q) :
    join [s, joinSlash qs] = joinSlash (names s ++ qs) := by
  have hparts : cleanParts false (parts s ++ parts (joinSlash qs)) = names s ++ qs := by
    rw [parts_joinSlash hne (slash_of_plain hqs), cleanParts_append_plain false _ hqs, names, hs]
  rw [join_relative hs (joinSlash_ne_empty hne hqs) _ (rooted_joinSlash hqs), hparts]
  rw [hparts]
  simp [hne]

/-! ## The directory of a path -/

/-- The text of a path up to its last slash, the slash with it. -/
def folderOf (s : String) : String := joinSlash ((parts s).dropLast ++ [""])

theorem dir_eq (s : String) : dir s = clean (folderOf s) := rfl

/-- What the text of a path below a directory begins with. -/
def within (d : String) : String := if d = "." then "" else if d = "/" then "/" else d ++ "/"

theorem joinSlash_empty (hne : ns ≠ []) : joinSlash (ns ++ [""]) = joinSlash ns ++ "/" := by
  rw [joinSlash_append hne (List.cons_ne_nil _ _), joinSlash, String.append_empty]

theorem names_text {r : Bool} (h : Cleaned r ns.reverse) :
    rooted (text r ns) = r ∧ names (text r ns) = ns := by
  obtain ⟨hr, hnames⟩ := parts_text h
  exact ⟨hr, by rw [names, hr, hnames]⟩

theorem within_text {r : Bool} (h : Cleaned r ns.reverse) (hne : ns ≠ []) :
    within (text r ns) = text r ns ++ "/" := by
  have hnames := (names_text h).2
  have hdot : text r ns ≠ "." := by
    intro heq
    rw [heq] at hnames
    exact hne (hnames.symm.trans (by decide))
  have hroot : text r ns ≠ "/" := by
    intro heq
    rw [heq] at hnames
    exact hne (hnames.symm.trans (by decide))
  rw [within, if_neg hdot, if_neg hroot]

/-- Names behind a path that is cleaned, as texts. -/
theorem text_append {r : Bool} (h : Cleaned r ns.reverse) (hne : qs ≠ []) :
    text r (ns ++ qs) = within (text r ns) ++ joinSlash qs := by
  by_cases hnil : ns = []
  · subst hnil
    cases r with
    | true => rfl
    | false =>
      rw [List.nil_append, text, text]
      simp only [Bool.false_eq_true, if_false, hne, if_true]
      exact (String.empty_append).symm
  · have happ : ns ++ qs ≠ [] := by simp [hnil]
    rw [within_text h hnil]
    cases r with
    | true => simp only [text, if_true, joinSlash_append hnil hne, String.append_assoc]
    | false =>
      simp only [text, Bool.false_eq_true, if_false, hnil, happ, joinSlash_append hnil hne]

/-- Joining a directory and plain names puts them behind its text. -/
theorem join_within {d : String} (hd : clean d = d) (hne : qs ≠ []) (hqs : ∀ q ∈ qs, Plain q) :
    join [d, joinSlash qs] = within d ++ joinSlash qs := by
  have hempty : d ≠ "" := by
    rintro rfl
    exact absurd hd (by decide)
  obtain ⟨hrooted, hnames, hclean⟩ := names_join hempty (joinSlash qs)
  rw [parts_joinSlash hne (slash_of_plain hqs), cleanParts_append_plain _ _ hqs] at hnames
  change _ = names d ++ qs at hnames
  rw [← hclean, clean_eq_text, hrooted, hnames, text_append (cleaned_names d) hne,
    ← clean_eq_text, hd]

theorem cleanParts_slash (r : Bool) (ns : List String) :
    cleanParts r (ns ++ [""]) = cleanParts r ns := by
  rw [cleanParts, List.foldl_append, List.foldl_cons, cleanStep_empty]
  rfl

/-- Cleaned parts are cleaned without the last one of them. -/
theorem Cleaned.of_append {r : Bool} {up : String} (h : Cleaned r (ns ++ [up]).reverse) :
    Cleaned r ns.reverse := by
  rw [List.reverse_append, List.reverse_singleton, List.singleton_append] at h
  obtain ⟨out, k, hout, hk, heq⟩ := h.shape
  cases out with
  | nil =>
    cases k with
    | zero => cases heq
    | succ k =>
      exact ⟨[], k, by simp, fun hr => absurd (hk hr) (by simp), (List.cons.inj heq).2⟩
  | cons q out =>
    exact ⟨out, k, fun p hp => hout p (List.mem_cons_of_mem q hp), hk, (List.cons.inj heq).2⟩

/-- The text of cleaned parts with a slash behind them. -/
def folderText (r : Bool) (ns : List String) : String :=
  (if r then "/" else "") ++ joinSlash (ns ++ [""])

theorem clean_folderText {r : Bool} (h : Cleaned r ns.reverse) :
    clean (folderText r ns) = text r ns := by
  have hslash : ∀ p ∈ ns ++ [""], '/' ∉ p.toList := by
    intro p hp
    rcases List.mem_append.1 hp with hp | hp
    · exact h.slash p hp
    · rw [List.mem_singleton.1 hp]
      decide
  have hparts := parts_joinSlash (by simp) hslash
  rw [clean_eq_text, names, folderText]
  cases r with
  | true =>
    rw [if_pos rfl, rooted_slash, parts_slash, hparts, cleanParts_empty_cons, cleanParts_slash,
      h.cleanParts_eq]
  | false =>
    have hrel : rooted (joinSlash (ns ++ [""])) = false := by
      by_cases hnil : ns = []
      · subst hnil
        rfl
      · rw [joinSlash_empty hnil, rooted_append (h.joinSlash_ne hnil).1, h.rooted_joinSlash]
    simp only [Bool.false_eq_true, if_false, String.empty_append]
    rw [hrel, hparts, cleanParts_slash, h.cleanParts_eq]

theorem within_folderText {r : Bool} (h : Cleaned r ns.reverse) :
    within (text r ns) = folderText r ns := by
  by_cases hnil : ns = []
  · subst hnil
    cases r <;> decide
  · rw [within_text h hnil, folderText, joinSlash_empty hnil, text]
    cases r with
    | true => simp only [if_true, String.append_assoc]
    | false => simp only [Bool.false_eq_true, if_false, hnil, String.empty_append]

theorem folderOf_clean {up : String} {ups : List String} (hs : clean s = s)
    (hups : names s = ups ++ [up]) : folderOf s = folderText (rooted s) ups := by
  rw [folderOf, folderText, parts_of_clean hs (by simp [hups]), hups]
  cases rooted s with
  | true =>
    have hdrop : ("" :: (ups ++ [up])).dropLast ++ [""] = "" :: (ups ++ [""]) := by
      rw [← List.cons_append, List.dropLast_concat, List.cons_append]
    rw [if_pos rfl, hdrop, joinSlash_cons "" (by simp), String.empty_append, if_pos rfl]
  | false =>
    simp only [Bool.false_eq_true, if_false, List.dropLast_concat, String.empty_append]

/-- The directory of a clean path, and what stands in the path before its last name. -/
theorem dir_of_names {up : String} {ups : List String} (hs : clean s = s)
    (hups : names s = ups ++ [up]) : dir s = text (rooted s) ups := by
  have hcleaned := cleaned_names s
  rw [hups] at hcleaned
  rw [dir_eq, folderOf_clean hs hups, clean_folderText hcleaned.of_append]

theorem within_dir (hs : clean s = s) : within (dir s) = folderOf s := by
  by_cases hnil : names s = []
  · have htext : s = text (rooted s) [] := by
      rw [← hnil, ← clean_eq_text, hs]
    rw [htext]
    cases rooted s <;> decide
  · obtain ⟨ups, up, hups⟩ := (List.eq_nil_or_concat (names s)).resolve_left hnil
    rw [List.concat_eq_append] at hups
    have hcleaned := cleaned_names s
    rw [hups] at hcleaned
    rw [dir_of_names hs hups, folderOf_clean hs hups, within_folderText hcleaned.of_append]

/-- The directory of a relative path of names. -/
theorem dir_joinSlash {up : String} (h : Cleaned false (ns ++ [up]).reverse) :
    dir (joinSlash (ns ++ [up])) = text false ns := by
  have hnames := h.names_joinSlash
  have hclean : clean (joinSlash (ns ++ [up])) = joinSlash (ns ++ [up]) := by
    rw [clean_eq_text, h.rooted_joinSlash, hnames, text]
    simp
  rw [dir_of_names hclean hnames, h.rooted_joinSlash]

/-! ## Parts that are no names -/

theorem mem_of_mem_parts {s q : String} {c : Char} (hq : q ∈ parts s) (hc : c ∈ q.toList) :
    c ∈ s.toList := by
  obtain ⟨cs, hcs, rfl⟩ := List.mem_map.1 hq
  rw [String.toList_ofList] at hc
  exact subset_of_mem_splitChars hcs hc

theorem parts_joinSlash_flatMap {ps : List String} (hne : ps ≠ []) :
    parts (joinSlash ps) = ps.flatMap parts := by
  induction ps with
  | nil => exact absurd rfl hne
  | cons p ps ih =>
    by_cases hnil : ps = []
    · subst hnil
      simp [joinSlash]
    · rw [joinSlash_cons p hnil, parts_append, ih hnil, List.flatMap_cons]

theorem parts_leading (a : Nat) (s : String) :
    parts (String.ofList (List.replicate a '/') ++ s) = List.replicate a "" ++ parts s := by
  induction a with
  | zero => rfl
  | succ a ih =>
    have htext : String.ofList (List.replicate (a + 1) '/') ++ s =
        "/" ++ (String.ofList (List.replicate a '/') ++ s) := by
      rw [← String.toList_inj]
      simp [List.replicate_succ]
    rw [htext, parts_slash, ih, List.replicate_succ, List.cons_append]

theorem parts_trailing (b : Nat) (s : String) :
    parts (s ++ String.ofList (List.replicate b '/')) = parts s ++ List.replicate b "" := by
  induction b generalizing s with
  | zero => simp
  | succ b ih =>
    have htext : s ++ String.ofList (List.replicate (b + 1) '/') =
        s ++ "/" ++ "" ++ String.ofList (List.replicate b '/') := by
      rw [← String.toList_inj]
      simp [List.replicate_succ]
    have hempty : parts "" = [""] := by decide
    rw [htext, ih, parts_append, hempty, List.replicate_succ, List.append_assoc,
      List.singleton_append]

theorem cleanParts_empties (r : Bool) (a b : Nat) (ps : List String) :
    cleanParts r (List.replicate a "" ++ ps ++ List.replicate b "") = cleanParts r ps := by
  have hfold : ∀ (n : Nat) (out : List String),
      (List.replicate n "").foldl (cleanStep r) out = out := by
    intro n
    induction n with
    | zero => exact fun _ => rfl
    | succ n ih =>
      intro out
      rw [List.replicate_succ, List.foldl_cons, cleanStep_empty, ih]
  rw [cleanParts, List.foldl_append, List.foldl_append, hfold, hfold, cleanParts]

theorem cleanParts_of_no_dots {ps : List String} (h : ∀ q ∈ ps, q ≠ "." ∧ q ≠ "..") :
    cleanParts false ps = ps.filter (· ≠ "") := by
  have hfold : ∀ out, ps.foldl (cleanStep false) out = (ps.filter (· ≠ "")).reverse ++ out := by
    induction ps with
    | nil => exact fun _ => rfl
    | cons p ps ih =>
      rw [List.forall_mem_cons] at h
      intro out
      by_cases hempty : p = ""
      · rw [List.foldl_cons, hempty, cleanStep_empty, ih h.2,
          List.filter_cons_of_neg (by simp)]
      · have hstep : cleanStep false out p = p :: out := by
          simp [cleanStep, hempty, h.1.1, h.1.2]
        rw [List.foldl_cons, hstep, ih h.2, List.filter_cons_of_pos (by simpa using hempty),
          List.reverse_cons, List.append_assoc, List.singleton_append]
  rw [cleanParts, hfold, List.append_nil, List.reverse_reverse]

end Go.Path

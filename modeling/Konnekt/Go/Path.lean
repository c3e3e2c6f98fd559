import Konnekt.Go.Text

/-!
# Slash-separated paths

Cleaning and joining, as the `path` package documents them, over the parts a
path has between its slashes.
-/

namespace Go.Path

/-- The parts of a path between its slashes; never empty. -/
def parts (s : String) : List String := split s '/'

/-- `strings.Join` with slashes. -/
def joinSlash : List String → String
  | [] => ""
  | [p] => p
  | p :: q :: ps => p ++ "/" ++ joinSlash (q :: ps)

/-- One part of a path being cleaned, with the parts so far, the last one first. -/
def cleanStep (rooted : Bool) (out : List String) (p : String) : List String :=
  if p = "" ∨ p = "." then out
  else if p = ".." then
    match out with
    | [] => if rooted then [] else [".."]
    | q :: out => if q = ".." then ".." :: q :: out else out
  else p :: out

/-- The parts that are left of a path. -/
def cleanParts (rooted : Bool) (ps : List String) : List String :=
  (ps.foldl (cleanStep rooted) []).reverse

def rooted (s : String) : Bool := s.toList.head? == some '/'

/-- `path.Clean`. -/
def clean (s : String) : String :=
  let out := cleanParts (rooted s) (parts s)
  if rooted s then "/" ++ joinSlash out
  else if out = [] then "." else joinSlash out

/-- `path.Join`: elements that are empty are ignored. -/
def join (elems : List String) : String :=
  match elems.filter (· ≠ "") with
  | [] => ""
  | elems => clean (joinSlash elems)

/-- `path.Base`. -/
def base (s : String) : String :=
  if s = "" then "."
  else ((parts s).reverse.find? (· ≠ "")).getD "/"

/-! ## Parts and their text -/

theorem toList_joinSlash_cons (p : String) {ps : List String} (hps : ps ≠ []) :
    (joinSlash (p :: ps)).toList = p.toList ++ '/' :: (joinSlash ps).toList := by
  obtain ⟨q, ps, rfl⟩ := List.exists_cons_of_ne_nil hps
  rw [joinSlash, String.toList_append, String.toList_append, List.append_assoc]
  rfl

theorem joinSlash_cons (p : String) {ps : List String} (hps : ps ≠ []) :
    joinSlash (p :: ps) = p ++ "/" ++ joinSlash ps := by
  obtain ⟨q, ps, rfl⟩ := List.exists_cons_of_ne_nil hps
  rfl

theorem joinSlash_append {ps qs : List String} (hps : ps ≠ []) (hqs : qs ≠ []) :
    joinSlash (ps ++ qs) = joinSlash ps ++ "/" ++ joinSlash qs := by
  induction ps with
  | nil => exact absurd rfl hps
  | cons p ps ih =>
    by_cases hnil : ps = []
    · subst hnil
      exact joinSlash_cons p hqs
    · rw [List.cons_append, joinSlash_cons p (by simp [hnil]), ih hnil, joinSlash_cons p hnil]
      simp only [String.append_assoc]

theorem parts_ne_nil (s : String) : parts s ≠ [] := by
  rw [parts, split]
  exact fun h => splitChars_ne_nil '/' s.toList (List.map_eq_nil_iff.1 h)

theorem not_mem_of_mem_parts {s p : String} (h : p ∈ parts s) : '/' ∉ p.toList := by
  obtain ⟨cs, hcs, rfl⟩ := List.mem_map.1 h
  rw [String.toList_ofList]
  exact not_mem_of_mem_splitChars hcs

/-- The parts of a path are read off its text. -/
theorem parts_joinSlash {ps : List String} (hne : ps ≠ []) (h : ∀ p ∈ ps, '/' ∉ p.toList) :
    parts (joinSlash ps) = ps := by
  induction ps with
  | nil => exact absurd rfl hne
  | cons p ps ih =>
    have hp := h p List.mem_cons_self
    by_cases hnil : ps = []
    · subst hnil
      rw [parts, split, joinSlash, splitChars_of_not_mem hp, List.map_singleton,
        String.ofList_toList]
    · have hrest := ih hnil fun q hq => h q (List.mem_cons_of_mem p hq)
      rw [parts, split, toList_joinSlash_cons p hnil, splitChars_append hp, List.map_cons,
        String.ofList_toList]
      exact congrArg (p :: ·) hrest

theorem joinSlash_parts (s : String) : joinSlash (parts s) = s := by
  have hlist (cs : List Char) :
      (joinSlash ((splitChars '/' cs).map String.ofList)).toList = cs := by
    induction hn : cs.length using Nat.strong_induction_on generalizing cs with
    | h n ih =>
      obtain ⟨l, -, ⟨rfl, heq⟩ | ⟨rest, rfl, heq⟩⟩ := exists_splitChars '/' cs
      · rw [heq, List.map_singleton, joinSlash, String.toList_ofList]
      · have hrest : (splitChars '/' rest).map String.ofList ≠ [] := by
          simpa using splitChars_ne_nil '/' rest
        rw [heq, List.map_cons, toList_joinSlash_cons _ hrest, String.toList_ofList,
          ih rest.length _ rest rfl]
        rw [← hn, List.length_append, List.length_cons]
        omega
  exact String.toList_inj.1 (hlist s.toList)

/-- The base of a path is the name behind its last slash. -/
theorem base_append (u : String) {name : String} (hne : name ≠ "") (hslash : '/' ∉ name.toList) :
    base (u ++ "/" ++ name) = name := by
  have hparts : parts (u ++ "/" ++ name) = parts u ++ [name] := by
    have htext : u ++ "/" ++ name = joinSlash (parts u ++ [name]) := by
      rw [joinSlash_append (parts_ne_nil u) (List.cons_ne_nil _ _), joinSlash_parts]
      rfl
    rw [htext, parts_joinSlash (by simp)]
    intro q hq
    rcases List.mem_append.1 hq with hold | hlast
    · exact not_mem_of_mem_parts hold
    · rwa [List.mem_singleton.1 hlast]
  have hnonempty : u ++ "/" ++ name ≠ "" := by
    intro heq
    have hlen := congrArg String.length heq
    simp at hlen
  rw [base, if_neg hnonempty, hparts, List.reverse_append, List.reverse_singleton,
    List.singleton_append, List.find?_cons, decide_eq_true hne]
  rfl

/-! ## Cleaning -/

/-- A name that no path is cleaned of. -/
def Plain (p : String) : Prop := p ∉ ["", ".", ".."] ∧ '/' ∉ p.toList

instance (p : String) : Decidable (Plain p) := inferInstanceAs (Decidable (_ ∧ _))

theorem Plain.ne_empty {p : String} (h : Plain p) : p ≠ "" := fun heq => h.1 (by simp [heq])

theorem cleanStep_of_plain {rooted : Bool} {p : String} (h : Plain p) (out : List String) :
    cleanStep rooted out p = p :: out := by
  have hmem := h.1
  simp only [List.mem_cons, List.not_mem_nil, or_false, not_or] at hmem
  simp only [cleanStep, hmem.1, hmem.2.1, hmem.2.2, or_self, if_false]

theorem foldl_cleanStep {rooted : Bool} {ps : List String} (h : ∀ p ∈ ps, Plain p)
    (out : List String) : ps.foldl (cleanStep rooted) out = ps.reverse ++ out := by
  induction ps generalizing out with
  | nil => rfl
  | cons p ps ih =>
    rw [List.foldl_cons, cleanStep_of_plain (h p List.mem_cons_self),
      ih fun q hq => h q (List.mem_cons_of_mem p hq), List.reverse_cons, List.append_assoc]
    rfl

/-- Plain names stay as they are. -/
theorem cleanParts_of_plain {rooted : Bool} {ps : List String} (h : ∀ p ∈ ps, Plain p) :
    cleanParts rooted ps = ps := by
  rw [cleanParts, foldl_cleanStep h, List.append_nil, List.reverse_reverse]

theorem rooted_joinSlash {ps : List String} (h : ∀ p ∈ ps, Plain p) :
    rooted (joinSlash ps) = false := by
  cases ps with
  | nil => rfl
  | cons p ps =>
    have hp := h p List.mem_cons_self
    have hhead : (joinSlash (p :: ps)).toList.head? = p.toList.head? := by
      have hne : p.toList ≠ [] := fun heq => hp.ne_empty (String.toList_inj.1 heq)
      by_cases hnil : ps = []
      · subst hnil
        rfl
      · rw [toList_joinSlash_cons p hnil, List.head?_append_of_ne_nil _ hne]
    rw [rooted, hhead]
    cases hc : p.toList with
    | nil => rfl
    | cons c cs =>
      have hslash : c ≠ '/' := by
        intro heq
        exact hp.2 (by simp [hc, heq])
      simpa using hslash

/-- A path of plain names is clean. -/
theorem clean_joinSlash {ps : List String} (hne : ps ≠ []) (h : ∀ p ∈ ps, Plain p) :
    clean (joinSlash ps) = joinSlash ps := by
  have hparts := parts_joinSlash hne fun p hp => (h p hp).2
  have hout : cleanParts false ps = ps := cleanParts_of_plain h
  simp only [clean, hparts, rooted_joinSlash h, hout, if_false, Bool.false_eq_true, hne]

theorem joinSlash_ne_empty {ps : List String} (hne : ps ≠ []) (h : ∀ p ∈ ps, Plain p) :
    joinSlash ps ≠ "" := by
  intro heq
  have hparts := parts_joinSlash hne fun p hp => (h p hp).2
  rw [heq] at hparts
  exact (h "" (by rw [← hparts]; decide)).ne_empty rfl

/-- Joining a path of plain names and one more. -/
theorem join_plain {ps : List String} {p : String} (hps : ∀ q ∈ ps, Plain q) (hp : Plain p) :
    join [joinSlash ps, p] = joinSlash (ps ++ [p]) := by
  have hall : ∀ q ∈ ps ++ [p], Plain q := by
    intro q hq
    cases List.mem_append.1 hq with
    | inl hq => exact hps q hq
    | inr hq => rwa [List.mem_singleton.1 hq]
  by_cases hnil : ps = []
  · subst hnil
    have hfilter : [joinSlash [], p].filter (· ≠ "") = [p] := by
      simp [joinSlash, hp.ne_empty]
    simp only [join, hfilter]
    exact clean_joinSlash (by simp) hall
  · have hfilter : [joinSlash ps, p].filter (· ≠ "") = [joinSlash ps, p] := by
      simp [joinSlash_ne_empty hnil hps, hp.ne_empty]
    have htext : joinSlash [joinSlash ps, p] = joinSlash (ps ++ [p]) := by
      rw [joinSlash_append hnil (List.cons_ne_nil _ _)]
      rfl
    simp only [join, hfilter, htext]
    exact clean_joinSlash (by simp) hall

end Go.Path

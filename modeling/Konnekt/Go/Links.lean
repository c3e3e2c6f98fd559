import Konnekt.Go.Path
import Mathlib.Data.List.Nodup

/-!
# Directories with symbolic links

What lies below a directory, with links to places below it, and the resolution
of a path over them: names are followed one by one, a link leads to its target,
and only so many links are followed. A target is the path the link leads to as
seen from the root; links that lead elsewhere are not modelled.
-/

namespace Go

/-- What a name in a directory stands for. -/
inductive Kind where
  | file
  | dir
  | link (target : List String)
  deriving DecidableEq, Repr

/-- The nodes below a directory, by path. -/
structure LinkTree where
  entries : List (List String × Kind)
  nodup : (entries.map Prod.fst).Nodup
  names : ∀ e ∈ entries, ∀ n ∈ e.1, Path.Plain n
  below : ∀ e ∈ entries, e.1 ≠ [] ∧ (e.1.dropLast = [] ∨ (e.1.dropLast, Kind.dir) ∈ entries)

/-- Why a path is not resolved. -/
inductive WalkError where
  | notExist
  | notDir
  | tooManyLinks
  deriving DecidableEq, Repr

namespace LinkTree

variable (t : LinkTree)

/-- `os.Lstat` of a path without links before its last name. -/
def kind (p : List String) : Option Kind :=
  if p = [] then some .dir else t.entries.lookup p

/-- `os.ReadDir` of a directory by a path without links: its names, with what they stand for. -/
def readDir (p : List String) : List (String × Kind) :=
  t.entries.filterMap fun e =>
    if e.1.dropLast = p then e.1.getLast?.map fun n => (n, e.2) else none

/-- The names of a path followed from a directory; what a link leads to is left to `follow`. -/
def walkWith (follow : List String → Except WalkError (List String)) (real : List String) :
    List String → Except WalkError (List String)
  | [] => .ok real
  | n :: rest =>
    match t.kind (real ++ [n]) with
    | none => .error .notExist
    | some .file => if rest = [] then .ok (real ++ [n]) else .error .notDir
    | some .dir => walkWith follow (real ++ [n]) rest
    | some (.link target) => follow (target ++ rest)

/-- The path without links that a path leads to, through at most so many links. -/
def walk : Nat → List String → Except WalkError (List String)
  | 0 => t.walkWith (fun _ => .error .tooManyLinks) []
  | links + 1 => t.walkWith (walk links) []

variable {t}

/-! ## Names in a directory -/

theorem lookup_eq_some {p : List String} {k : Kind} :
    t.entries.lookup p = some k ↔ (p, k) ∈ t.entries := by
  have hnodup := t.nodup
  generalize t.entries = l at hnodup
  induction l with
  | nil => simp
  | cons e l ih =>
    obtain ⟨q, j⟩ := e
    rw [List.map_cons, List.nodup_cons] at hnodup
    by_cases hq : p = q
    · subst hq
      have hnot : (p, k) ∉ l := fun hmem => hnodup.1 (List.mem_map.2 ⟨_, hmem, rfl⟩)
      simp [hnot, eq_comm]
    · have hne : (p == q) = false := by simpa using hq
      rw [List.lookup_cons, hne, List.mem_cons]
      simp [hq, ih hnodup.2]

theorem kind_append {p : List String} {n : String} {k : Kind} :
    t.kind (p ++ [n]) = some k ↔ (p ++ [n], k) ∈ t.entries := by
  rw [kind, if_neg (by simp), lookup_eq_some]

theorem mem_readDir {p : List String} {n : String} {k : Kind} :
    (n, k) ∈ t.readDir p ↔ t.kind (p ++ [n]) = some k := by
  rw [kind_append, readDir, List.mem_filterMap]
  constructor
  · rintro ⟨⟨q, j⟩, hmem, heq⟩
    split at heq
    · next hp =>
      obtain ⟨m, hm, hk⟩ := Option.map_eq_some_iff.1 heq
      cases hk
      rw [← hp, List.dropLast_append_getLast? n hm]
      exact hmem
    · cases heq
  · intro hmem
    exact ⟨_, hmem, by simp⟩

theorem nodup_readDir (t : LinkTree) (p : List String) :
    ((t.readDir p).map Prod.fst).Nodup := by
  have hnames : (t.readDir p).map Prod.fst =
      (t.entries.map Prod.fst).filterMap fun q => if q.dropLast = p then q.getLast? else none := by
    rw [readDir, List.map_filterMap, List.filterMap_map]
    apply congrArg (List.filterMap · t.entries)
    funext e
    by_cases hp : e.1.dropLast = p
    · simp [hp, Function.comp_def]
    · simp [hp]
  rw [hnames]
  apply t.nodup.filterMap
  intro q q' n hn hn'
  rw [Option.mem_def] at hn hn'
  split at hn
  · next hq =>
    split at hn'
    · next hq' =>
      rw [← List.dropLast_append_getLast? n hn, ← List.dropLast_append_getLast? n hn', hq, hq']
    · cases hn'
  · cases hn

/-! ## Resolving a path -/

/-- What a link leads to, with so many links left to follow. -/
def follow (t : LinkTree) : Nat → List String → Except WalkError (List String)
  | 0 => fun _ => .error .tooManyLinks
  | links + 1 => t.walk links

/-- The rest of a path resolved from a directory. -/
def resume (t : LinkTree) (links : Nat) (real rest : List String) :
    Except WalkError (List String) :=
  t.walkWith (t.follow links) real rest

theorem walk_eq (links : Nat) (p : List String) : t.walk links p = t.resume links [] p := by
  cases links <;> rfl

theorem resume_nil (links : Nat) (real : List String) : t.resume links real [] = .ok real := rfl

theorem resume_none {links : Nat} {real rest : List String} {n : String}
    (h : t.kind (real ++ [n]) = none) : t.resume links real (n :: rest) = .error .notExist := by
  rw [resume, walkWith, h]

theorem resume_file {links : Nat} {real rest : List String} {n : String}
    (h : t.kind (real ++ [n]) = some .file) :
    t.resume links real (n :: rest) =
      if rest = [] then .ok (real ++ [n]) else .error .notDir := by
  rw [resume, walkWith, h]

theorem resume_dir {links : Nat} {real rest : List String} {n : String}
    (h : t.kind (real ++ [n]) = some .dir) :
    t.resume links real (n :: rest) = t.resume links (real ++ [n]) rest := by
  rw [resume, walkWith, h]
  rfl

theorem resume_link {links : Nat} {real rest target : List String} {n : String}
    (h : t.kind (real ++ [n]) = some (.link target)) :
    t.resume links real (n :: rest) = t.follow links (target ++ rest) := by
  rw [resume, walkWith, h]

/-- Resolving a path goes on with the rest of it, or after a link with a link fewer. -/
theorem resume_induct (t : LinkTree) {motive : Nat → List String → List String → Prop}
    (nil : ∀ links real, motive links real [])
    (missing : ∀ links real n rest, t.kind (real ++ [n]) = none → motive links real (n :: rest))
    (file : ∀ links real n rest, t.kind (real ++ [n]) = some .file →
      motive links real (n :: rest))
    (dir : ∀ links real n rest, t.kind (real ++ [n]) = some .dir →
      motive links (real ++ [n]) rest → motive links real (n :: rest))
    (link : ∀ links real n rest target, t.kind (real ++ [n]) = some (.link target) →
      (∀ left, links = left + 1 → motive left [] (target ++ rest)) →
      motive links real (n :: rest)) :
    ∀ links real rest, motive links real rest := by
  intro links
  induction links using Nat.strong_induction_on with
  | h links ih =>
    intro real rest
    induction rest generalizing real with
    | nil => exact nil links real
    | cons n rest ihrest =>
      cases hkind : t.kind (real ++ [n]) with
      | none => exact missing links real n rest hkind
      | some k =>
        cases k with
        | file => exact file links real n rest hkind
        | dir => exact dir links real n rest hkind (ihrest (real ++ [n]))
        | link target =>
          apply link links real n rest target hkind
          intro left hleft
          exact ih left (by omega) [] (target ++ rest)

theorem follow_succ (links : Nat) (p : List String) :
    t.follow (links + 1) p = t.resume links [] p :=
  walk_eq links p

/-- More links to follow change no path that is resolved. -/
theorem resume_mono {links more : Nat} {real rest r : List String} (hle : links ≤ more)
    (h : t.resume links real rest = .ok r) : t.resume more real rest = .ok r := by
  induction links, real, rest using t.resume_induct generalizing more with
  | nil links real => exact h
  | missing links real n rest hkind =>
    rw [resume_none hkind] at h
    cases h
  | file links real n rest hkind => rwa [resume_file hkind] at h ⊢
  | dir links real n rest hkind ih =>
    rw [resume_dir hkind] at h ⊢
    exact ih hle h
  | link links real n rest target hkind ih =>
    rw [resume_link hkind] at h ⊢
    cases links with
    | zero => cases h
    | succ links =>
      obtain ⟨more, rfl⟩ := Nat.exists_eq_succ_of_ne_zero (by omega : more ≠ 0)
      rw [follow_succ] at h ⊢
      exact ih links rfl (by omega) h

/-- A path that continues below a directory is resolved from there, with the links that are
left. -/
theorem resume_append {links : Nat} {real p d : List String} (q : List String)
    (h : t.resume links real p = .ok d) (hd : t.kind d = some .dir) :
    ∃ left ≤ links, t.resume links real (p ++ q) = t.resume left d q := by
  induction links, real, p using t.resume_induct with
  | nil links real =>
    cases h
    exact ⟨links, le_rfl, rfl⟩
  | missing links real n rest hkind =>
    rw [resume_none hkind] at h
    cases h
  | file links real n rest hkind =>
    rw [resume_file hkind] at h
    split at h
    · cases h
      rw [hkind] at hd
      cases hd
    · cases h
  | dir links real n rest hkind ih =>
    rw [resume_dir hkind] at h
    rw [List.cons_append, resume_dir hkind]
    exact ih h
  | link links real n rest target hkind ih =>
    rw [resume_link hkind] at h
    rw [List.cons_append, resume_link hkind]
    cases links with
    | zero => cases h
    | succ links =>
      rw [follow_succ] at h ⊢
      obtain ⟨left, hle, heq⟩ := ih links rfl h
      rw [List.append_assoc] at heq
      exact ⟨left, hle.trans (Nat.le_succ links), heq⟩

/-- A path is resolved through a directory for every name before its last. -/
theorem dir_of_resume_append {links : Nat} {real p q r : List String}
    (hreal : t.kind real = some .dir) (hq : q ≠ [])
    (h : t.resume links real (p ++ q) = .ok r) :
    ∃ d, t.resume links real p = .ok d ∧ t.kind d = some .dir := by
  induction links, real, p using t.resume_induct with
  | nil links real => exact ⟨real, rfl, hreal⟩
  | missing links real n rest hkind =>
    rw [List.cons_append, resume_none hkind] at h
    cases h
  | file links real n rest hkind =>
    rw [List.cons_append, resume_file hkind, if_neg (by simp [hq])] at h
    cases h
  | dir links real n rest hkind ih =>
    rw [List.cons_append, resume_dir hkind] at h
    rw [resume_dir hkind]
    exact ih hkind h
  | link links real n rest target hkind ih =>
    rw [List.cons_append, resume_link hkind] at h
    rw [resume_link hkind]
    cases links with
    | zero => cases h
    | succ links =>
      rw [follow_succ, ← List.append_assoc] at h
      rw [follow_succ]
      exact ih links rfl (if_pos rfl) h

end LinkTree

end Go

import Mathlib

/-!
# Files and directories below a root

What lies below a directory, as a finite map from paths to nodes: making the
directories of a path, writing a file, and walking over everything. Paths are
lists of names; the root itself has no node of its own.
-/

namespace Go

/-- A directory, or a regular file with its bytes. -/
inductive Node where
  | dir
  | file (data : List UInt8)
  deriving DecidableEq, Repr

/-- The nodes below a root, by path. -/
abbrev Tree := AList fun _ : List String => Node

namespace Tree

/-- `os.Mkdir`, if there is no directory yet. -/
def mkdir (t : Tree) (path : List String) : Except String Tree :=
  match t.lookup path with
  | some (.file _) => .error "not a directory"
  | some .dir => .ok t
  | none => .ok (t.insert path .dir)

/-- `os.MkdirAll`. -/
def mkdirAll (path : List String) (t : Tree) : Except String Tree :=
  path.inits.tail.foldlM mkdir t

/-- `os.Create` in a directory that is there, and the bytes written. -/
def writeFile (path : List String) (data : List UInt8) (t : Tree) : Except String Tree :=
  if t.lookup path = some .dir then .error "is a directory"
  else .ok (t.insert path (.file data))

/-- A file written in a directory that is made for it. -/
def createFile (path : List String) (data : List UInt8) (t : Tree) : Except String Tree := do
  writeFile path data (← mkdirAll path.dropLast t)

/-- `filepath.Walk` below the root: every node, in the order of the paths. -/
def walk (t : Tree) : List (List String × Node) :=
  (t.entries.map fun e => (e.1, e.2)).insertionSort fun a b => a.1 ≤ b.1

theorem mem_walk {t : Tree} {p : List String} {n : Node} :
    (p, n) ∈ t.walk ↔ t.lookup p = some n := by
  rw [walk, (List.perm_insertionSort _ _).mem_iff, List.mem_map, ← Option.mem_def,
    AList.mem_lookup_iff]
  constructor
  · rintro ⟨⟨q, m⟩, he, heq⟩
    cases heq
    exact he
  · exact fun h => ⟨⟨p, n⟩, h, rfl⟩

theorem nodup_walk (t : Tree) : (t.walk.map Prod.fst).Nodup := by
  rw [walk, ((List.perm_insertionSort _ _).map Prod.fst).nodup_iff, List.map_map]
  exact t.nodupKeys

/-! ## Directories of a path -/

theorem mem_tail_inits {p q : List String} : q ∈ p.inits.tail ↔ q ≠ [] ∧ q <+: p := by
  cases p with
  | nil => simp
  | cons a p =>
    rw [List.inits_cons, List.tail_cons, List.mem_map]
    constructor
    · rintro ⟨r, hr, rfl⟩
      exact ⟨List.cons_ne_nil _ _, List.cons_prefix_cons.2 ⟨rfl, (List.mem_inits _ _).1 hr⟩⟩
    · rintro ⟨hne, hq⟩
      obtain ⟨b, r, rfl⟩ := List.exists_cons_of_ne_nil hne
      obtain ⟨rfl, hr⟩ := List.cons_prefix_cons.1 hq
      exact ⟨r, (List.mem_inits _ _).2 hr, rfl⟩

/-- No regular file stands at the path. -/
def Free (t : Tree) (path : List String) : Prop :=
  t.lookup path = none ∨ t.lookup path = some .dir

theorem mkdir_of_free {t : Tree} {path : List String} (h : t.Free path) :
    ∃ t', mkdir t path = .ok t' ∧
      ∀ q, t'.lookup q = if q = path then some .dir else t.lookup q := by
  unfold mkdir
  rcases h with hnone | hdir
  · rw [hnone]
    refine ⟨_, rfl, fun q => ?_⟩
    split
    · next heq => rw [heq, AList.lookup_insert]
    · next hne => rw [AList.lookup_insert_ne hne]
  · rw [hdir]
    refine ⟨t, rfl, fun q => ?_⟩
    split
    · next heq => rw [heq, hdir]
    · rfl

private theorem foldlM_mkdir {paths : List (List String)} {t : Tree}
    (h : ∀ p ∈ paths, t.Free p) : ∃ t', paths.foldlM mkdir t = .ok t' ∧
      ∀ q, t'.lookup q = if q ∈ paths then some .dir else t.lookup q := by
  induction paths generalizing t with
  | nil => exact ⟨t, rfl, fun q => by simp⟩
  | cons p paths ih =>
    obtain ⟨t₁, hone, hlookup⟩ := mkdir_of_free (h p List.mem_cons_self)
    have hfree : ∀ q ∈ paths, t₁.Free q := by
      intro q hq
      rw [Free, hlookup]
      split
      · exact .inr rfl
      · exact h q (List.mem_cons_of_mem p hq)
    obtain ⟨t', hrest, hlookup'⟩ := ih hfree
    refine ⟨t', by rw [List.foldlM_cons, hone]; exact hrest, fun q => ?_⟩
    rw [hlookup', hlookup]
    by_cases hq : q ∈ paths
    · simp [hq]
    · simp [hq]

/-- The directories of a path can be made when no regular file is on the way. -/
theorem mkdirAll_of_free {path : List String} {t : Tree}
    (h : ∀ p, p ≠ [] → p <+: path → t.Free p) : ∃ t', mkdirAll path t = .ok t' ∧
      ∀ q, t'.lookup q = if q ≠ [] ∧ q <+: path then some .dir else t.lookup q := by
  obtain ⟨t', hok, hlookup⟩ := @foldlM_mkdir path.inits.tail t
    fun p hp => h p (mem_tail_inits.1 hp).1 (mem_tail_inits.1 hp).2
  exact ⟨t', hok, fun q => by simp only [hlookup, mem_tail_inits]⟩

/-- A file can be written where no directory is and no regular file is on the way. -/
theorem createFile_of_free {path : List String} {data : List UInt8} {t : Tree}
    (hne : path ≠ []) (h : ∀ p, p ≠ [] → p <+: path.dropLast → t.Free p)
    (hdir : t.lookup path ≠ some .dir) : ∃ t', createFile path data t = .ok t' ∧
      ∀ q, t'.lookup q = if q = path then some (.file data)
        else if q ≠ [] ∧ q <+: path.dropLast then some .dir else t.lookup q := by
  obtain ⟨t₁, hok, hlookup⟩ := mkdirAll_of_free h
  have hself : ¬ (path ≠ [] ∧ path <+: path.dropLast) := by
    rintro ⟨-, hpre⟩
    have hle := hpre.length_le
    have hpos := List.length_pos_iff.2 hne
    rw [List.length_dropLast] at hle
    omega
  have hpath : t₁.lookup path ≠ some .dir := by rwa [hlookup, if_neg hself]
  refine ⟨t₁.insert path (.file data), ?_, fun q => ?_⟩
  · rw [createFile, hok]
    exact if_neg hpath
  · split
    · next heq => rw [heq, AList.lookup_insert]
    · next hq => rw [AList.lookup_insert_ne hq, hlookup]

/-! ## What was made -/

theorem mkdir_eq_ok {t t' : Tree} {path : List String} (h : mkdir t path = .ok t') :
    t.Free path ∧ ∀ q, t'.lookup q = if q = path then some .dir else t.lookup q := by
  have hfree : t.Free path := by
    unfold mkdir at h
    split at h
    · cases h
    · next hdir => exact .inr hdir
    · next hnone => exact .inl hnone
  obtain ⟨t₁, hok, hlookup⟩ := mkdir_of_free hfree
  obtain rfl := Except.ok.inj (hok.symm.trans h)
  exact ⟨hfree, hlookup⟩

private theorem foldlM_mkdir_eq_ok {paths : List (List String)} {t t' : Tree}
    (h : paths.foldlM mkdir t = .ok t') : ∀ p ∈ paths, t.Free p := by
  induction paths generalizing t with
  | nil => simp
  | cons p paths ih =>
    rw [List.foldlM_cons] at h
    cases hone : mkdir t p with
    | error e =>
      rw [hone] at h
      cases h
    | ok t₁ =>
      rw [hone] at h
      obtain ⟨hp, hlookup⟩ := mkdir_eq_ok hone
      have hrest := ih h
      refine List.forall_mem_cons.2 ⟨hp, fun q hq => ?_⟩
      by_cases heq : q = p
      · rwa [heq]
      · have hfree := hrest q hq
        rwa [Free, hlookup, if_neg heq] at hfree

/-- Directories are made where no regular file is on the way. -/
theorem mkdirAll_eq_ok {path : List String} {t t' : Tree} (h : mkdirAll path t = .ok t') :
    (∀ p, p ≠ [] → p <+: path → t.Free p) ∧
      ∀ q, t'.lookup q = if q ≠ [] ∧ q <+: path then some .dir else t.lookup q := by
  have hfree : ∀ p, p ≠ [] → p <+: path → t.Free p :=
    fun p hne hpre => foldlM_mkdir_eq_ok h p (mem_tail_inits.2 ⟨hne, hpre⟩)
  obtain ⟨t₁, hok, hlookup⟩ := mkdirAll_of_free hfree
  obtain rfl := Except.ok.inj (hok.symm.trans h)
  exact ⟨hfree, hlookup⟩

theorem writeFile_eq_ok {path : List String} {data : List UInt8} {t t' : Tree}
    (h : writeFile path data t = .ok t') : t.lookup path ≠ some .dir ∧
      t' = t.insert path (.file data) := by
  unfold writeFile at h
  split at h
  · cases h
  · next hdir => exact ⟨hdir, (Except.ok.inj h).symm⟩

end Tree

end Go

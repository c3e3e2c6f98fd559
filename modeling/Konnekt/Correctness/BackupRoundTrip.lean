import Konnekt.Backup.Archive
import Konnekt.Correctness.WorldSwap

/-!
# Worlds through an archive and back

The names a world is archived under are read back as the paths they were written
for, extracting the entries of a closed set of nodes makes exactly these nodes,
and the swaps then put every archived dimension where it belongs.
-/

namespace Konnekt.Backup

open Go

/-! ## Names and paths -/

/-- A name of a file in its directory that no path is cleaned of. -/
def IsComponent (name : String) : Prop := name ∉ ["", ".", ".."] ∧ IsName name

theorem IsComponent.ne_empty {name : String} (h : IsComponent name) : name ≠ "" :=
  fun heq => h.1 (heq ▸ by simp)

theorem toList_relPath_cons (a : String) (p : List String) (hp : p ≠ []) :
    (relPath (a :: p)).toList = a.toList ++ '/' :: (relPath p).toList := by
  cases p with
  | nil => exact absurd rfl hp
  | cons b p =>
    rw [relPath, String.toList_append, String.toList_append, List.append_assoc]
    rfl

/-- The names of a path, read off its text with anything after it. -/
theorem splitChars_relPath {p : List String} (hp : p ≠ []) (hnames : ∀ a ∈ p, IsName a)
    (s : List Char) : splitChars '/' ((relPath p).toList ++ '/' :: s) =
      p.map String.toList ++ splitChars '/' s := by
  induction p with
  | nil => exact absurd rfl hp
  | cons a p ih =>
    have ha : '/' ∉ a.toList := hnames a List.mem_cons_self
    by_cases hnil : p = []
    · subst hnil
      rw [relPath, splitChars_append ha]
      rfl
    · rw [toList_relPath_cons a p hnil, List.append_assoc, List.cons_append,
        splitChars_append ha, ih hnil fun b hb => hnames b (List.mem_cons_of_mem a hb)]
      rfl

theorem splitChars_relPath_end {p : List String} (hp : p ≠ []) (hnames : ∀ a ∈ p, IsName a) :
    splitChars '/' (relPath p).toList = p.map String.toList := by
  induction p with
  | nil => exact absurd rfl hp
  | cons a p ih =>
    have ha : '/' ∉ a.toList := hnames a List.mem_cons_self
    by_cases hnil : p = []
    · subst hnil
      exact splitChars_of_not_mem ha
    · rw [toList_relPath_cons a p hnil, splitChars_append ha,
        ih hnil fun b hb => hnames b (List.mem_cons_of_mem a hb)]
      rfl

private theorem ofList_toList_map (p : List String) :
    (p.map String.toList).map String.ofList = p := by
  rw [List.map_map]
  exact (List.map_congr_left fun a _ => String.ofList_toList).trans (List.map_id p)

/-- Cleaning keeps the names of a path. -/
theorem foldl_cleanStep {p : List String} (h : ∀ a ∈ p, IsComponent a) (dir : List String) :
    p.foldl cleanStep dir = dir ++ p := by
  induction p generalizing dir with
  | nil => exact (List.append_nil dir).symm
  | cons a p ih =>
    have ha : cleanStep dir a = dir ++ [a] := by
      have hmem := (h a List.mem_cons_self).1
      simp only [List.mem_cons, List.not_mem_nil, or_false, not_or] at hmem
      rw [cleanStep, if_neg (not_or.2 ⟨hmem.1, hmem.2.1⟩), if_neg hmem.2.2]
    rw [List.foldl_cons, ha, ih fun b hb => h b (List.mem_cons_of_mem a hb), List.append_assoc]
    rfl

/-- The entry of the node at a path. -/
def entryOf (n : List String × Node) : ZipEntry :=
  match n.2 with
  | .dir => ⟨relPath n.1 ++ "/", []⟩
  | .file data => ⟨relPath n.1, data⟩

/-- An entry is read back as the path it was written for. -/
theorem joinClean_entryOf {n : List String × Node} (hne : n.1 ≠ [])
    (hnames : ∀ a ∈ n.1, IsComponent a) (dir : List String) :
    joinClean dir (entryOf n).name = dir ++ n.1 := by
  obtain ⟨p, n⟩ := n
  have hplain : ∀ a ∈ p, IsName a := fun a ha => (hnames a ha).2
  cases n with
  | dir =>
    change ((splitChars '/' (relPath p ++ "/").toList).map String.ofList).foldl cleanStep dir = _
    rw [String.toList_append]
    change ((splitChars '/' ((relPath p).toList ++ '/' :: [])).map String.ofList).foldl
      cleanStep dir = _
    rw [splitChars_relPath hne hplain, List.map_append, ofList_toList_map, List.foldl_append,
      foldl_cleanStep hnames]
    rfl
  | file data =>
    change ((splitChars '/' (relPath p).toList).map String.ofList).foldl cleanStep dir = _
    rw [splitChars_relPath_end hne hplain, ofList_toList_map, foldl_cleanStep hnames]

theorem getLast?_relPath {p : List String} (hp : p ≠ []) (hnames : ∀ a ∈ p, IsComponent a) :
    (relPath p).toList.getLast? ≠ some '/' := by
  induction p with
  | nil => exact absurd rfl hp
  | cons a p ih =>
    by_cases hnil : p = []
    · subst hnil
      intro hlast
      exact (hnames a List.mem_cons_self).2 (List.mem_of_getLast? hlast)
    · have hrest : (relPath p).toList ≠ [] := by
        intro hempty
        have hsplit := splitChars_relPath_end hnil fun b hb =>
          (hnames b (List.mem_cons_of_mem a hb)).2
        rw [hempty] at hsplit
        obtain ⟨b, q, rfl⟩ := List.exists_cons_of_ne_nil hnil
        have hb : b.toList = [] := (List.cons.inj hsplit).1.symm
        exact (hnames b (by simp)).ne_empty (String.toList_inj.1 hb)
      rw [toList_relPath_cons a p hnil, List.getLast?_append_of_ne_nil _ (List.cons_ne_nil _ _),
        List.getLast?_cons_of_ne_nil hrest]
      exact ih hnil fun b hb => hnames b (List.mem_cons_of_mem a hb)

/-- Only the entry of a directory is one. -/
theorem isDir_entryOf {n : List String × Node} (hne : n.1 ≠ [])
    (hnames : ∀ a ∈ n.1, IsComponent a) : (entryOf n).isDir = (n.2 == .dir) := by
  obtain ⟨p, n⟩ := n
  cases n with
  | dir =>
    change decide ((relPath p ++ "/").toList.getLast? = some '/') = true
    rw [String.toList_append]
    exact decide_eq_true List.getLast?_concat
  | file data => exact decide_eq_false (getLast?_relPath hne hnames)

/-! ## Extracting -/

/-- Nodes with proper names, every one in a directory that is among them. -/
def Closed (nodes : Contents) : Prop :=
  ∀ p n, nodes p = some n → p ≠ [] ∧ (∀ a ∈ p, IsComponent a) ∧
    ∀ q, q ≠ [] → q <+: p → q ≠ p → nodes q = some .dir

/-- Nothing is on the disk but the extraction directory and some of the nodes in it. -/
def Below (tmp : List String) (nodes : Contents) (t : Tree) : Prop :=
  ∀ p n, t.lookup p = some n → p <+: tmp ∧ n = .dir ∨ ∃ q, p = tmp ++ q ∧ nodes q = some n

section

variable {tmp : List String} {nodes : Contents} {t : Tree} {q : List String} {n : Node}

/-- A directory on the way to a node can be made, if it is not there. -/
theorem Below.free (hclosed : Closed nodes) (hbelow : Below tmp nodes t) (hq : nodes q = some n)
    {p : List String} (hp : p <+: tmp ++ q) (hn : p = tmp ++ q → n = .dir) : t.Free p := by
  cases hlookup : t.lookup p with
  | none => exact .inl hlookup
  | some m =>
    refine .inr ?_
    rcases hbelow p m hlookup with ⟨-, rfl⟩ | ⟨r, rfl, hr⟩
    · exact hlookup
    · have hpre : r <+: q := (List.prefix_append_right_inj tmp).1 hp
      by_cases hrq : r = q
      · subst hrq
        rw [hlookup, ← hr, hq, hn rfl]
      · rw [hlookup, ← hr, (hclosed q n hq).2.2 r (hclosed r m hr).1 hpre hrq]

/-- The directories on the way to a node are among the nodes, or lead to the directory. -/
theorem among_of_initial (hclosed : Closed nodes) (hq : nodes q = some n) {p : List String}
    (hp : p <+: tmp ++ q) (hn : p = tmp ++ q → n = .dir) :
    p <+: tmp ∨ ∃ r, p = tmp ++ r ∧ nodes r = some .dir := by
  rcases List.prefix_or_prefix_of_prefix hp (List.prefix_append tmp q) with htmp | ⟨r, rfl⟩
  · exact .inl htmp
  · by_cases hr : r = []
    · subst hr
      exact .inl (by rw [List.append_nil])
    · refine .inr ⟨r, rfl, ?_⟩
      by_cases hrq : r = q
      · subst hrq
        rw [hq, hn rfl]
      · exact (hclosed q n hq).2.2 r hr ((List.prefix_append_right_inj tmp).1 hp) hrq

/-- What extracting a node has done: the node is there, and nothing was taken away. -/
structure Extracted (tmp : List String) (nodes : Contents) (q : List String) (n : Node)
    (t t' : Tree) : Prop where
  below : Below tmp nodes t'
  made : t'.lookup (tmp ++ q) = some n
  kept : ∀ p m, t.lookup p = some m → t'.lookup p = some m

/-- A directory already there is kept when it is made again. -/
theorem Below.kept_dir (hclosed : Closed nodes) (hbelow : Below tmp nodes t) (hq : nodes q = some n)
    {p : List String} (hp : p <+: tmp ++ q) (hn : p = tmp ++ q → n = .dir) {m : Node}
    (hm : t.lookup p = some m) : m = .dir := by
  rcases hbelow.free hclosed hq hp hn with hnone | hdir
  · rw [hnone] at hm
    cases hm
  · rw [hdir] at hm
    cases hm
    rfl

theorem mkdirAll_extracted (hclosed : Closed nodes) (hbelow : Below tmp nodes t)
    (hq : nodes q = some .dir) :
    ∃ t', Tree.mkdirAll (tmp ++ q) t = .ok t' ∧ Extracted tmp nodes q .dir t t' := by
  have hpath : tmp ++ q ≠ [] := fun h => (hclosed q _ hq).1 (List.append_eq_nil_iff.1 h).2
  obtain ⟨t', hok, hlookup⟩ := @Tree.mkdirAll_of_free (tmp ++ q) t
    fun p _ hp => hbelow.free hclosed hq hp fun _ => rfl
  refine ⟨t', hok, ?_, ?_, ?_⟩
  · intro p m hm
    rw [hlookup] at hm
    split at hm
    · next hp =>
      cases hm
      exact (among_of_initial hclosed hq hp.2 fun _ => rfl).imp_left fun h => ⟨h, rfl⟩
    · exact hbelow p m hm
  · rw [hlookup, if_pos ⟨hpath, List.prefix_rfl⟩]
  · intro p m hm
    rw [hlookup]
    split
    · next hp => rw [hbelow.kept_dir hclosed hq hp.2 (fun _ => rfl) hm]
    · exact hm

/-- What is at the path of a node is that node. -/
theorem Below.at_path (hclosed : Closed nodes) (hbelow : Below tmp nodes t) (hq : nodes q = some n)
    {m : Node} (hm : t.lookup (tmp ++ q) = some m) : m = n := by
  rcases hbelow _ m hm with ⟨hpre, -⟩ | ⟨r, hr, hnode⟩
  · have hle := hpre.length_le
    have hpos := List.length_pos_iff.2 (hclosed q n hq).1
    rw [List.length_append] at hle
    omega
  · rw [← List.append_cancel_left hr, hq] at hnode
    cases hnode
    rfl

private theorem prefix_dropLast {p path : List String} (hpath : path ≠ [])
    (h : p <+: path.dropLast) : p <+: path ∧ p ≠ path := by
  refine ⟨h.trans (List.dropLast_prefix _), ?_⟩
  rintro rfl
  have hle := h.length_le
  have hpos := List.length_pos_iff.2 hpath
  rw [List.length_dropLast] at hle
  omega

theorem createFile_extracted (hclosed : Closed nodes) (hbelow : Below tmp nodes t)
    {data : List UInt8} (hq : nodes q = some (.file data)) :
    ∃ t', Tree.createFile (tmp ++ q) data t = .ok t' ∧
      Extracted tmp nodes q (.file data) t t' := by
  have hpath : tmp ++ q ≠ [] := fun h => (hclosed q _ hq).1 (List.append_eq_nil_iff.1 h).2
  have hself : ∀ p, p <+: (tmp ++ q).dropLast → p = tmp ++ q → Node.file data = .dir :=
    fun p hp heq => absurd heq (prefix_dropLast hpath hp).2
  have hfile : t.lookup (tmp ++ q) ≠ some .dir := fun hdir =>
    Node.noConfusion (hbelow.at_path hclosed hq hdir)
  obtain ⟨t', hok, hlookup⟩ := @Tree.createFile_of_free (tmp ++ q) data t hpath
    (fun p _ hp => hbelow.free hclosed hq (prefix_dropLast hpath hp).1 (hself p hp)) hfile
  refine ⟨t', hok, ?_, by rw [hlookup, if_pos rfl], ?_⟩
  · intro p m hm
    rw [hlookup] at hm
    split at hm
    · next hp =>
      cases hm
      exact .inr ⟨q, hp, hq⟩
    split at hm
    · next hp =>
      cases hm
      exact (among_of_initial hclosed hq (prefix_dropLast hpath hp.2).1
        (hself p hp.2)).imp_left fun h => ⟨h, rfl⟩
    · exact hbelow p m hm
  · intro p m hm
    rw [hlookup]
    split
    · next hp =>
      rw [hp] at hm
      rw [hbelow.at_path hclosed hq hm]
    split
    · next hp =>
      rw [hbelow.kept_dir hclosed hq (prefix_dropLast hpath hp.2).1 (hself p hp.2) hm]
    · exact hm

/-- Extracting the entry of a node makes the node, and takes nothing away. -/
theorem extractEntry_entryOf (hclosed : Closed nodes) (hbelow : Below tmp nodes t)
    (hq : nodes q = some n) : ∃ t', extractEntry tmp t (entryOf (q, n)) = .ok t' ∧
      Extracted tmp nodes q n t t' := by
  obtain ⟨hne, hnames, -⟩ := hclosed q n hq
  rw [extractEntry, joinClean_entryOf hne hnames, isDir_entryOf hne hnames]
  dsimp only
  rw [if_neg (not_not.2 (List.prefix_append tmp q))]
  cases n with
  | dir => exact mkdirAll_extracted hclosed hbelow hq
  | file data => exact createFile_extracted hclosed hbelow hq

/-- Extracting the entries of some of the nodes makes those. -/
theorem foldlM_extractEntry (hclosed : Closed nodes) (hbelow : Below tmp nodes t)
    {l : List (List String × Node)} (hl : ∀ e ∈ l, nodes e.1 = some e.2) :
    ∃ t', (l.map entryOf).foldlM (extractEntry tmp) t = .ok t' ∧ Below tmp nodes t' ∧
      (∀ e ∈ l, t'.lookup (tmp ++ e.1) = some e.2) ∧
      ∀ p m, t.lookup p = some m → t'.lookup p = some m := by
  induction l generalizing t with
  | nil => exact ⟨t, rfl, hbelow, fun e he => absurd he List.not_mem_nil, fun _ _ h => h⟩
  | cons e l ih =>
    obtain ⟨t₁, hone, hfirst⟩ := extractEntry_entryOf hclosed hbelow (hl e List.mem_cons_self)
    obtain ⟨t', hrest, hbelow', hmade, hkept⟩ :=
      ih hfirst.below fun d hd => hl d (List.mem_cons_of_mem e hd)
    refine ⟨t', ?_, hbelow', ?_, fun p m h => hkept p m (hfirst.kept p m h)⟩
    · rw [List.map_cons, List.foldlM_cons, hone]
      exact hrest
    · intro d hd
      rcases List.mem_cons.1 hd with rfl | hd
      · exact hkept _ _ hfirst.made
      · exact hmade d hd

variable (tmp) in
/-- An archive of all the nodes extracts to exactly them. -/
theorem unzipTo_entries (hclosed : Closed nodes) {l : List (List String × Node)}
    (hl : ∀ p m, (p, m) ∈ l ↔ nodes p = some m) {total : Nat}
    (hsize : zipDeclaredTotal (l.map entryOf) = .ok total) :
    ∃ t, unzipTo (l.map entryOf) tmp ∅ = .ok t ∧ Below tmp nodes t ∧
      ∀ p, p ≠ [] → t.lookup (tmp ++ p) = nodes p := by
  have hempty : Below tmp nodes ∅ := fun p m h => by
    rw [AList.lookup_empty] at h
    cases h
  obtain ⟨t, hok, hbelow, hmade, -⟩ := foldlM_extractEntry hclosed hempty
    fun e he => (hl e.1 e.2).1 he
  refine ⟨t, ?_, hbelow, fun p hp => ?_⟩
  · rw [unzipTo, hsize]
    exact hok
  · cases hnode : nodes p with
    | some m => exact hmade (p, m) ((hl p m).2 hnode)
    | none =>
      cases hlookup : t.lookup (tmp ++ p) with
      | none => rfl
      | some m =>
        exfalso
        rcases hbelow _ m hlookup with ⟨hpre, -⟩ | ⟨r, hr, hr'⟩
        · have hle := hpre.length_le
          have hpos := List.length_pos_iff.2 hp
          rw [List.length_append] at hle
          omega
        · rw [← List.append_cancel_left hr, hnode] at hr'
          cases hr'

end

/-! ## Writing -/

/-- The files and directories below a directory. -/
structure FileTree where
  nodes : Tree
  named : ∀ p n, nodes.lookup p = some n → p ≠ [] ∧ ∀ a ∈ p, IsComponent a
  closed : ∀ p n, nodes.lookup p = some n →
    ∀ q, q ≠ [] → q <+: p → q ≠ p → nodes.lookup q = some .dir

/-- The files no archive takes along: locks, and the databases of a running server's world. -/
def leftOut (skip : Bool) (root : String) (p : List String) : Prop :=
  p.getLast? = some "session.lock" ∨ skip = true ∧ isLodDatabase root p = true

instance (skip : Bool) (root : String) (p : List String) : Decidable (leftOut skip root p) :=
  inferInstanceAs (Decidable (_ ∨ _))

/-- Whether a node is archived. -/
def keeps (skip : Bool) (root : String) (n : List String × Node) : Bool :=
  n.2 == .dir || ! decide (leftOut skip root n.1)

theorem keeps_file {skip : Bool} {root : String} {p : List String} {data : List UInt8} :
    keeps skip root (p, .file data) = true ↔ ¬ leftOut skip root p := by
  have hfile : (Node.file data == Node.dir) = false := rfl
  rw [keeps, hfile, Bool.false_or, Bool.not_eq_true', decide_eq_false_iff_not]

/-- A tree without the files that are left out. -/
def archived (skip : Bool) (root : String) (t : FileTree) : Contents :=
  fun p => (t.nodes.lookup p).filter fun n => keeps skip root (p, n)

theorem archived_eq_some {skip : Bool} {root : String} {t : FileTree} {p : List String} {n : Node} :
    archived skip root t p = some n ↔ t.nodes.lookup p = some n ∧ keeps skip root (p, n) = true :=
  Option.filter_eq_some_iff

theorem closed_archived (skip : Bool) (root : String) (t : FileTree) :
    Closed (archived skip root t) := by
  intro p n hn
  have hlookup := (archived_eq_some.1 hn).1
  refine ⟨(t.named p n hlookup).1, (t.named p n hlookup).2, fun q hq hpre hne => ?_⟩
  exact archived_eq_some.2 ⟨t.closed p n hlookup q hq hpre hne, rfl⟩

/-- The nodes of a tree the archive has entries for. -/
def archivedNodes (skip : Bool) (root : String) (t : FileTree) : List (List String × Node) :=
  t.nodes.walk.filter (keeps skip root)

theorem mem_archivedNodes {skip : Bool} {root : String} {t : FileTree} {p : List String} {n : Node} :
    (p, n) ∈ archivedNodes skip root t ↔ archived skip root t p = some n := by
  rw [archivedNodes, List.mem_filter, Tree.mem_walk, archived_eq_some]

theorem relPath_eq_dot {p : List String} (h : ∀ a ∈ p, IsComponent a) :
    relPath p = "." ↔ p = [] := by
  constructor
  · intro hdot
    by_contra hne
    have hsplit := splitChars_relPath_end hne fun a ha => (h a ha).2
    rw [hdot] at hsplit
    have hp : p = ["."] := by
      have hmap := congrArg (List.map String.ofList) hsplit
      rw [ofList_toList_map] at hmap
      exact hmap.symm
    exact (h "." (by rw [hp]; exact List.mem_singleton_self _)).1 (by simp)
  · rintro rfl
    rfl

/-- The name of an entry is the path of its node below the folder's own name. -/
theorem zipEntryName_relPath {pre : String} (hpre : pre ≠ "") {p : List String}
    (h : ∀ a ∈ p, IsComponent a) : zipEntryName pre (relPath p) = relPath (pre :: p) := by
  unfold zipEntryName
  by_cases hp : p = []
  · subst hp
    exact if_pos rfl
  · rw [if_neg (mt (relPath_eq_dot h).1 hp), if_neg hpre]
    obtain ⟨a, q, rfl⟩ := List.exists_cons_of_ne_nil hp
    rfl

theorem zipEntryName_relPath_empty {p : List String} (hp : p ≠ []) (h : ∀ a ∈ p, IsComponent a) :
    zipEntryName "" (relPath p) = relPath p := by
  rw [zipEntryName, if_neg (mt (relPath_eq_dot h).1 hp), if_pos rfl]

theorem relPath_ne_empty {p : List String} (hp : p ≠ []) (h : ∀ a ∈ p, IsComponent a) :
    relPath p ≠ "" := by
  intro hempty
  have hsplit := splitChars_relPath_end hp fun a ha => (h a ha).2
  rw [hempty] at hsplit
  obtain ⟨a, q, rfl⟩ := List.exists_cons_of_ne_nil hp
  have ha : a.toList = [] := (List.cons.inj hsplit).1.symm
  exact (h a List.mem_cons_self).ne_empty (String.toList_inj.1 ha)

/-- The walk writes the entry of every node that is kept. -/
theorem zipNode_eq {root pre : String} {skip : Bool} {n : List String × Node} {path : List String}
    (hpath : path ≠ []) (hnames : ∀ a ∈ path, IsComponent a)
    (hname : zipEntryName pre (relPath n.1) = relPath path) :
    zipNode root pre skip n =
      if keeps skip root n = true then some (entryOf (path, n.2)) else none := by
  obtain ⟨p, n⟩ := n
  unfold zipNode
  dsimp only at hname ⊢
  rw [hname]
  cases n with
  | dir => exact if_neg (relPath_ne_empty hpath hnames)
  | file data =>
    dsimp only
    by_cases hlock : p.getLast? = some "session.lock"
    · rw [if_pos hlock, if_neg]
      exact fun h => keeps_file.1 h (.inl hlock)
    rw [if_neg hlock]
    by_cases hlod : (skip && isLodDatabase root p) = true
    · rw [if_pos hlod, if_neg]
      exact fun h => keeps_file.1 h (.inr (Bool.and_eq_true_iff.1 hlod))
    · rw [if_neg hlod, if_pos]
      · rfl
      · exact keeps_file.2 fun h => h.elim hlock fun hboth => hlod (Bool.and_eq_true_iff.2 hboth)

/-- Filtering while mapping is filtering first. -/
private theorem filterMap_ite {α β : Type} {l : List α} {f : α → Option β} (keep : α → Bool)
    (g : α → β) (h : ∀ a ∈ l, f a = if keep a = true then some (g a) else none) :
    l.filterMap f = (l.filter keep).map g := by
  rw [List.filterMap_congr h, ← List.filterMap_filter, ← List.filterMap_eq_map]
  rfl

/-- The entries of a folder under its own name. -/
theorem writeTreeToZip_root {root : String} (hroot : IsComponent root) (skip : Bool)
    (t : FileTree) : writeTreeToZip root root skip t.nodes =
      ((([], .dir) :: archivedNodes skip root t).map fun n => (root :: n.1, n.2)).map entryOf := by
  have hnodes : ([], .dir) :: archivedNodes skip root t =
      (([], .dir) :: t.nodes.walk).filter (keeps skip root) := rfl
  rw [writeTreeToZip, List.map_map, hnodes]
  refine filterMap_ite (keeps skip root) (entryOf ∘ fun n => (root :: n.1, n.2)) fun n hn => ?_
  have hnames : ∀ a ∈ n.1, IsComponent a := by
    rcases List.mem_cons.1 hn with rfl | hn
    · exact fun a ha => absurd ha List.not_mem_nil
    · exact (t.named n.1 n.2 (Tree.mem_walk.1 hn)).2
  refine zipNode_eq (List.cons_ne_nil _ _) ?_ (zipEntryName_relPath hroot.ne_empty hnames)
  intro a ha
  rcases List.mem_cons.1 ha with rfl | ha
  · exact hroot
  · exact hnames a ha

/-- The entries of the contents of a folder. -/
theorem zipDirWithProgress_eq (skip : Bool) (root : String) (t : FileTree) :
    zipDirWithProgress skip root t.nodes = (archivedNodes skip root t).map entryOf := by
  rw [zipDirWithProgress, writeTreeToZip, List.filterMap_cons_none rfl]
  refine filterMap_ite (keeps skip root) entryOf fun n hn => ?_
  obtain ⟨hne, hnames⟩ := t.named n.1 n.2 (Tree.mem_walk.1 hn)
  exact zipNode_eq hne hnames (zipEntryName_relPath_empty hne hnames)

/-! ## The extraction directory -/

/-- The entries of a directory are the nodes right below it. -/
theorem mem_readDir {t : Tree} {dir : List String} {d : DirEntry} :
    d ∈ readDir t dir ↔ ∃ n, t.lookup (dir ++ [d.name]) = some n ∧ d.isDir = (n == .dir) := by
  rw [readDir, List.mem_map]
  constructor
  · rintro ⟨⟨p, n⟩, he, rfl⟩
    obtain ⟨hwalk, hdir⟩ := List.mem_filter.1 he
    obtain ⟨rfl, hne⟩ := of_decide_eq_true hdir
    have hpath : p.dropLast ++ [p.getLastD ""] = p := by
      rw [List.getLastD_eq_getLast?, List.getLast?_eq_some_getLast hne]
      exact List.dropLast_append_getLast hne
    refine ⟨n, ?_, rfl⟩
    change t.lookup (p.dropLast ++ [p.getLastD ""]) = some n
    rw [hpath]
    exact Tree.mem_walk.1 hwalk
  · rintro ⟨n, hlookup, hisDir⟩
    refine ⟨(dir ++ [d.name], n), List.mem_filter.2 ⟨Tree.mem_walk.2 hlookup, ?_⟩, ?_⟩
    · exact decide_eq_true ⟨List.dropLast_concat, List.concat_ne_nil _ _⟩
    · dsimp only
      rw [List.getLastD_concat, ← hisDir]

theorem nodup_readDir (t : Tree) (dir : List String) : ((readDir t dir).map (·.name)).Nodup := by
  rw [readDir, List.map_map]
  have hkeys : ((t.walk.filter fun e => e.1.dropLast = dir ∧ e.1 ≠ []).map Prod.fst).Nodup :=
    t.nodup_walk.sublist (List.filter_sublist.map _)
  refine List.Nodup.map_on ?_ hkeys.of_map
  rintro ⟨p, n⟩ hp ⟨q, m⟩ hq heq
  obtain ⟨hpw, hpd⟩ := List.mem_filter.1 hp
  obtain ⟨hqw, hqd⟩ := List.mem_filter.1 hq
  obtain ⟨hpdrop, hpne⟩ : p.dropLast = dir ∧ p ≠ [] := of_decide_eq_true hpd
  obtain ⟨hqdrop, hqne⟩ : q.dropLast = dir ∧ q ≠ [] := of_decide_eq_true hqd
  have hpq : p = q := by
    rw [← List.dropLast_append_getLast hpne, ← List.dropLast_append_getLast hqne, hpdrop, hqdrop]
    change p.getLastD "" = q.getLastD "" at heq
    rw [List.getLastD_eq_getLast?, List.getLastD_eq_getLast?, List.getLast?_eq_some_getLast hpne,
      List.getLast?_eq_some_getLast hqne] at heq
    rw [show p.getLast hpne = q.getLast hqne from heq]
  subst hpq
  rw [Option.some.inj ((Tree.mem_walk.1 hpw).symm.trans (Tree.mem_walk.1 hqw))]

/-- The folder staged under a name. -/
theorem lookup_staged {dir : String} {tmp : List String} {names : List String} (name : String) :
    (names.map fun n => (joinPath dir n, tmp ++ [n])).lookup (joinPath dir name) =
      if name ∈ names then some (tmp ++ [name]) else none := by
  induction names with
  | nil => rfl
  | cons n names ih =>
    rw [List.map_cons, List.lookup_cons, ih]
    by_cases hn : name = n
    · subst hn
      rw [beq_self_eq_true, if_pos List.mem_cons_self]
    · have hne : (joinPath dir name == joinPath dir n) = false :=
        beq_eq_false_iff_ne.2 fun h => hn (joinPath_inj h)
      rw [hne]
      simp [hn]

/-! ## Archives of a world -/

/-- The entries of the archive of a world, one tree after the other. -/
def worldEntries (skip : Bool) (roots : List (String × FileTree)) : List (List String × Node) :=
  roots.flatMap fun r => (([], .dir) :: archivedNodes skip r.1 r.2).map fun n => (r.1 :: n.1, n.2)

theorem zipRootsWithProgress_eq {skip : Bool} {roots : List (String × FileTree)}
    (hnames : ∀ r ∈ roots, IsComponent r.1) :
    zipRootsWithProgress skip (roots.map fun r => (r.1, r.2.nodes)) =
      (worldEntries skip roots).map entryOf := by
  rw [zipRootsWithProgress, worldEntries, List.flatMap_map, List.map_flatMap]
  exact List.flatMap_congr fun r hr => writeTreeToZip_root (hnames r hr) skip r.2

/-- What an archive of a world holds. -/
def worldNodes (skip : Bool) (roots : List (String × FileTree)) : Contents
  | [] => none
  | name :: p => (roots.lookup name).bind fun t =>
    if p = [] then some .dir else archived skip name t p

private theorem lookup_eq_some_of_nodup {α : Type} {l : List (String × α)}
    (hnodup : (l.map Prod.fst).Nodup) {k : String} {v : α} :
    l.lookup k = some v ↔ (k, v) ∈ l := by
  induction l with
  | nil => simp
  | cons e l ih =>
    rw [List.map_cons, List.nodup_cons] at hnodup
    rw [List.lookup_cons, List.mem_cons]
    by_cases hk : k = e.1
    · subst hk
      rw [beq_self_eq_true]
      constructor
      · intro h
        cases h
        exact .inl rfl
      · rintro (heq | hmem)
        · rw [← heq]
        · exact absurd (List.mem_map_of_mem hmem) hnodup.1
    · rw [beq_eq_false_iff_ne.2 hk, ih hnodup.2]
      exact ⟨.inr, fun h => h.resolve_left fun heq => hk (by rw [← heq])⟩

theorem mem_worldEntries {skip : Bool} {roots : List (String × FileTree)}
    (hnodup : (roots.map Prod.fst).Nodup) {p : List String} {n : Node} :
    (p, n) ∈ worldEntries skip roots ↔ worldNodes skip roots p = some n := by
  rw [worldEntries, List.mem_flatMap]
  constructor
  · rintro ⟨⟨name, t⟩, hr, hn⟩
    obtain ⟨⟨q, m⟩, hq, heq⟩ := List.mem_map.1 hn
    cases heq
    rw [worldNodes, (lookup_eq_some_of_nodup hnodup).2 hr, Option.bind_some]
    rcases List.mem_cons.1 hq with heq | hq
    · cases heq
      exact if_pos rfl
    · have hnode := mem_archivedNodes.1 hq
      rw [if_neg (closed_archived skip name t q _ hnode).1, hnode]
  · intro h
    cases p with
    | nil => cases h
    | cons name q =>
      obtain ⟨t, ht, hn⟩ := Option.bind_eq_some_iff.1 h
      refine ⟨(name, t), (lookup_eq_some_of_nodup hnodup).1 ht, List.mem_map.2 ⟨(q, n), ?_, rfl⟩⟩
      split at hn
      · next hq =>
        cases hn
        rw [hq]
        exact List.mem_cons_self
      · exact List.mem_cons_of_mem _ (mem_archivedNodes.2 hn)

theorem closed_worldNodes (skip : Bool) {roots : List (String × FileTree)}
    (hnodup : (roots.map Prod.fst).Nodup) (hnames : ∀ r ∈ roots, IsComponent r.1) :
    Closed (worldNodes skip roots) := by
  intro p n hn
  cases p with
  | nil => cases hn
  | cons name q =>
    obtain ⟨t, ht, hnode⟩ := Option.bind_eq_some_iff.1 hn
    have hname : IsComponent name := hnames _ ((lookup_eq_some_of_nodup hnodup).1 ht)
    have hclosed : q ≠ [] → archived skip name t q = some n := by
      intro hq
      rwa [if_neg hq] at hnode
    refine ⟨List.cons_ne_nil _ _, fun a ha => ?_, fun r hr hpre hne => ?_⟩
    · rcases List.mem_cons.1 ha with rfl | ha
      · exact hname
      · exact (closed_archived skip name t q n (hclosed (List.ne_nil_of_mem ha))).2.1 a ha
    · obtain ⟨b, r, rfl⟩ := List.exists_cons_of_ne_nil hr
      obtain ⟨rfl, hrest⟩ := List.cons_prefix_cons.1 hpre
      rw [worldNodes, ht, Option.bind_some]
      by_cases hnil : r = []
      · exact if_pos hnil
      · have hq : q ≠ [] := by
          rintro rfl
          exact hnil (List.prefix_nil.1 hrest)
        rw [if_neg hnil]
        refine (closed_archived skip b t q n (hclosed hq)).2.2 r hnil hrest fun heq => ?_
        exact hne (by rw [heq])

/-! ## Restoring -/

/-- What a restore of a world is to do with the folders in `parentDir`: every archived folder is
its tree, and the other dimension folders of the world are untouched. It succeeds when no rename
fails and nothing stands where a folder is set aside. -/
structure RoundTrip (fault : Nat → Option String) (stamp parentDir worldName : String)
    (trees : List (String × Contents)) (folders : Folders Contents)
    (outcome : Except RestoreError (List String) × Folders Contents) : Prop where
  restored : ∀ targets, outcome.1 = .ok targets → ∀ e ∈ trees,
    outcome.2 (joinPath parentDir e.1) = some e.2
  untouched : ∀ targets, outcome.1 = .ok targets → ∀ name ∈ worldSiblings worldName,
    name ∉ trees.map Prod.fst → outcome.2 (joinPath parentDir name) =
      folders (joinPath parentDir name)
  succeeds : (∀ n, fault n = none) →
    (∀ e ∈ trees, folders (joinPath parentDir e.1 ++ ".bak-" ++ stamp) = none) →
    ∃ targets, outcome.1 = .ok targets

section

variable {fault : Nat → Option String} {stamp parentDir worldName tmpPath : String}
  {tmp : List String} {archive : List ZipEntry} {t : Tree} {swaps : List WorldSwap}
  {staged : List (String × List String)} {trees : List (String × Contents)}
  {folders : Folders Contents}

/-- The swaps of what was staged restore the trees, when each is staged for its own target. -/
theorem roundTrip_of_swaps (hunzip : unzipTo archive tmp ∅ = .ok t)
    (hswaps : restoreSwaps tmpPath parentDir worldName (stagedLayoutIsMultiRoot t tmp worldName)
      (readDir t tmp) = .ok swaps)
    (hstaged : stagedFolders t tmp tmpPath (stagedLayoutIsMultiRoot t tmp worldName) = staged)
    (hpaths : SwapPaths stamp swaps) (hnodup : (swaps.map (·.staged)).Nodup)
    (hkeys : ∀ p, staged.lookup p ≠ none → ∃ sw ∈ swaps, sw.staged = p)
    (hfound : ∀ sw ∈ swaps, ∃ e ∈ trees, sw.target = joinPath parentDir e.1 ∧
      stage t staged folders sw.staged = some e.2)
    (hall : ∀ e ∈ trees, ∃ sw ∈ swaps, sw.target = joinPath parentDir e.1 ∧
      stage t staged folders sw.staged = some e.2)
    (hother : ∀ name ∈ worldSiblings worldName, name ∉ trees.map Prod.fst → ∀ sw ∈ swaps,
      joinPath parentDir name ≠ sw.staged ∧ joinPath parentDir name ≠ sw.aside stamp) :
    RoundTrip fault stamp parentDir worldName trees folders
      (restoreWorld fault stamp tmp tmpPath parentDir worldName archive folders) := by
  have hrun : restoreWorld fault stamp tmp tmpPath parentDir worldName archive folders =
      ((swapWorldDirs fault stamp swaps (stage t staged folders)).1.mapError .swapping,
        unstage staged (swapWorldDirs fault stamp swaps (stage t staged folders)).2) := by
    rw [restoreWorld, hunzip]
    dsimp only
    rw [hswaps, hstaged]
  have hunstaged : ∀ {p}, (∀ sw ∈ swaps, p ≠ sw.staged) → staged.lookup p = none := by
    intro p hp
    by_contra hsome
    obtain ⟨sw, hsw, heq⟩ := hkeys p hsome
    exact hp sw hsw heq.symm
  have hkept : ∀ {p} (fs : Folders Contents), (∀ sw ∈ swaps, p ≠ sw.staged) →
      unstage staged fs p = fs p ∧ stage t staged fs p = fs p := by
    intro p fs hp
    constructor
    · rw [unstage, hunstaged hp]
      rfl
    · rw [stage, hunstaged hp]
  rw [hrun]
  cases hswap : swapWorldDirs fault stamp swaps (stage t staged folders) with
  | mk result fs' =>
    cases result with
    | error e =>
      refine ⟨fun _ h => (by cases h), fun _ h => (by cases h), fun hfault haside => ?_⟩
      have hthere : ∀ sw ∈ swaps, stage t staged folders sw.staged ≠ none := by
        intro sw hsw
        obtain ⟨e, -, -, hsome⟩ := hfound sw hsw
        rw [hsome]
        exact Option.some_ne_none _
      have hfree : ∀ sw ∈ swaps, stage t staged folders (sw.aside stamp) = none := by
        intro sw hsw
        obtain ⟨e, he, htarget, -⟩ := hfound sw hsw
        rw [(hkept folders fun sw' hsw' => (hpaths.staged_aside sw' hsw' sw hsw).symm).2,
          WorldSwap.aside, htarget]
        exact haside e he
      obtain ⟨fs'', hok⟩ := swapWorldDirs_of_free hfault hpaths hnodup hthere hfree
      rw [hswap] at hok
      cases hok
    | ok targets =>
      obtain ⟨-, hswapped⟩ := swapped_of_ok hpaths hswap
      refine ⟨fun _ _ e he => ?_, fun _ _ name hname hnew => ?_, fun _ _ => ⟨targets, rfl⟩⟩
      · obtain ⟨sw, hsw, htarget, hsome⟩ := hall e he
        change unstage staged fs' (joinPath parentDir e.1) = some e.2
        rw [← htarget, (hkept fs' fun sw' hsw' => (hpaths.staged_target sw' hsw' sw hsw).symm).1,
          (hswapped.placed sw hsw).2, hsome]
      · have hne := hother name hname hnew
        have htargets : ∀ sw ∈ swaps, joinPath parentDir name ≠ sw.target := by
          intro sw hsw heq
          obtain ⟨e, he, htarget, -⟩ := hfound sw hsw
          exact hnew (joinPath_inj (heq.trans htarget) ▸ List.mem_map_of_mem he)
        change unstage staged fs' (joinPath parentDir name) = folders (joinPath parentDir name)
        rw [(hkept fs' fun sw hsw => (hne sw hsw).1).1,
          hswapped.frame _ fun sw hsw => ⟨(hne sw hsw).1, htargets sw hsw, (hne sw hsw).2⟩,
          (hkept folders fun sw hsw => (hne sw hsw).1).2]

/-- A dimension folder is the world's own folder, or has the name with an ending. -/
theorem mem_worldSiblings {name : String} : name ∈ worldSiblings worldName ↔
    name = worldName ∨ name = worldName ++ "_nether" ∨ name = worldName ++ "_the_end" := by
  simp [worldSiblings]

theorem nodup_worldSiblings (worldName : String) : (worldSiblings worldName).Nodup := by
  have hne : ∀ a b : String, a ≠ b → worldName ++ a ≠ worldName ++ b := by
    intro a b hab h
    have hlist := congrArg String.toList h
    rw [String.toList_append, String.toList_append] at hlist
    exact hab (String.toList_inj.1 (List.append_cancel_left hlist))
  have h₁ := hne "" "_nether" (by decide)
  have h₂ := hne "" "_the_end" (by decide)
  rw [String.append_empty] at h₁ h₂
  simp only [worldSiblings, List.map_cons, List.map_nil, List.nodup_cons, List.mem_cons,
    List.not_mem_nil, or_false, not_or, not_false_eq_true, List.nodup_nil, and_true]
  exact ⟨⟨h₁, h₂⟩, hne _ _ (by decide)⟩

/-- The last character of a name with an ending is that of the ending. -/
private theorem getLast?_append_ending (name ending : String) (h : ending.toList ≠ []) :
    (name ++ ending).toList.getLast? = ending.toList.getLast? := by
  rw [String.toList_append, List.getLast?_append_of_ne_nil _ h]

theorem IsComponent.sibling (hworld : IsComponent worldName) {name : String}
    (h : name ∈ worldSiblings worldName) : IsComponent name := by
  have hending : ∀ ending : String, IsName ending → ending.toList ≠ [] →
      ending.toList.getLast? ≠ some '.' → IsComponent (worldName ++ ending) := by
    intro ending hname hne hlast
    have hnotDot : ∀ s ∈ ["", ".", ".."], worldName ++ ending ≠ s := by
      intro s hs heq
      have hlen := getLast?_append_ending worldName ending hne
      rw [heq] at hlen
      simp only [List.mem_cons, List.not_mem_nil, or_false] at hs
      rcases hs with rfl | rfl | rfl
      · exact hne (List.getLast?_eq_none_iff.1 hlen.symm)
      · exact hlast hlen.symm
      · exact hlast hlen.symm
    refine ⟨fun hmem => hnotDot _ hmem rfl, ?_⟩
    rw [IsName, String.toList_append, List.mem_append, not_or]
    exact ⟨hworld.2, hname⟩
  rcases mem_worldSiblings.1 h with rfl | rfl | rfl
  · exact hworld
  · exact hending _ (show '/' ∉ "_nether".toList by decide) (by decide) (by decide)
  · exact hending _ (show '/' ∉ "_the_end".toList by decide) (by decide) (by decide)

theorem levelDat_not_mem_worldSiblings (hlevel : worldName ≠ "level.dat") :
    "level.dat" ∉ worldSiblings worldName := by
  intro h
  rcases mem_worldSiblings.1 h with heq | heq | heq
  · exact hlevel heq.symm
  · have hlast := getLast?_append_ending worldName "_nether" (by decide)
    rw [← heq] at hlast
    exact absurd hlast (by decide)
  · have hlast := getLast?_append_ending worldName "_the_end" (by decide)
    rw [← heq] at hlast
    exact absurd hlast (by decide)

/-! ## The archive of a world with its dimensions -/

variable {skip : Bool} {roots : List (String × FileTree)}

/-- The names of the folders an archive was extracted to. -/
theorem mem_stagedNames (hlookup : ∀ p, p ≠ [] → t.lookup (tmp ++ p) = worldNodes skip roots p)
    (hnodup : (roots.map Prod.fst).Nodup) (name : String) :
    name ∈ ((readDir t tmp).filter (·.isDir)).map (·.name) ↔ name ∈ roots.map Prod.fst := by
  rw [List.mem_map, List.mem_map]
  constructor
  · rintro ⟨d, hd, rfl⟩
    obtain ⟨n, hn, -⟩ := mem_readDir.1 (List.mem_filter.1 hd).1
    rw [hlookup _ (List.cons_ne_nil _ _)] at hn
    obtain ⟨u, hu, -⟩ := Option.bind_eq_some_iff.1 hn
    exact ⟨(d.name, u), (lookup_eq_some_of_nodup hnodup).1 hu, rfl⟩
  · rintro ⟨⟨name, u⟩, hr, rfl⟩
    refine ⟨⟨name, true⟩, List.mem_filter.2 ⟨mem_readDir.2 ⟨.dir, ?_, rfl⟩, rfl⟩, rfl⟩
    rw [hlookup _ (List.cons_ne_nil _ _), worldNodes,
      (lookup_eq_some_of_nodup hnodup).2 hr, Option.bind_some, if_pos rfl]

/-- What was extracted to a folder is its tree. -/
theorem contentsAt_root (hlookup : ∀ p, p ≠ [] → t.lookup (tmp ++ p) = worldNodes skip roots p)
    (hnodup : (roots.map Prod.fst).Nodup) {name : String} {u : FileTree} (hr : (name, u) ∈ roots) :
    contentsAt t (tmp ++ [name]) = archived skip name u := by
  funext q
  by_cases hq : q = []
  · subst hq
    rw [contentsAt, if_pos rfl]
    cases hnode : archived skip name u [] with
    | none => rfl
    | some n => exact absurd rfl (closed_archived skip name u [] n hnode).1
  · rw [contentsAt, if_neg hq, List.append_assoc, List.singleton_append,
      hlookup _ (List.cons_ne_nil _ _), worldNodes, (lookup_eq_some_of_nodup hnodup).2 hr,
      Option.bind_some, if_neg hq]

variable {tmpName : String}

/-- The archive of a world and its dimensions is restored folder by folder. -/
theorem roundTrip_zipRoots {total : Nat} (hworld : IsComponent worldName)
    (hlevel : worldName ≠ "level.dat") (hstamp : IsName stamp)
    (hsub : (roots.map Prod.fst).Sublist (worldSiblings worldName))
    (hbase : worldName ∈ roots.map Prod.fst)
    (hsize : zipDeclaredTotal (zipRootsWithProgress skip (roots.map fun r => (r.1, r.2.nodes))) =
      .ok total) :
    RoundTrip fault stamp parentDir worldName
      (roots.map fun r => (r.1, archived skip r.1 r.2)) folders
      (restoreWorld fault stamp tmp (joinPath parentDir tmpName) parentDir worldName
        (zipRootsWithProgress skip (roots.map fun r => (r.1, r.2.nodes))) folders) := by
  have hnodup : (roots.map Prod.fst).Nodup := (nodup_worldSiblings worldName).sublist hsub
  have hnames : ∀ r ∈ roots, IsComponent r.1 := fun r hr =>
    hworld.sibling (hsub.subset (List.mem_map_of_mem hr))
  rw [zipRootsWithProgress_eq hnames] at hsize ⊢
  obtain ⟨t, hunzip, -, hlookup⟩ := unzipTo_entries tmp
    (closed_worldNodes skip hnodup hnames) (fun p n => mem_worldEntries hnodup) hsize
  have hnone : t.lookup (tmp ++ ["level.dat"]) = none := by
    rw [hlookup _ (List.cons_ne_nil _ _), worldNodes, Option.bind_eq_none_iff]
    intro u hu
    exact absurd (hsub.subset (List.mem_map_of_mem ((lookup_eq_some_of_nodup hnodup).1 hu)))
      (levelDat_not_mem_worldSiblings hlevel)
  have hown : t.lookup (tmp ++ [worldName]) = some .dir := by
    obtain ⟨⟨_, u⟩, hr, rfl⟩ := List.mem_map.1 hbase
    rw [hlookup _ (List.cons_ne_nil _ _), worldNodes, (lookup_eq_some_of_nodup hnodup).2 hr,
      Option.bind_some, if_pos rfl]
  have hmulti : stagedLayoutIsMultiRoot t tmp worldName = true := by
    rw [stagedLayoutIsMultiRoot, hnone, hown]
    rfl
  have hmem := mem_stagedNames hlookup hnodup
  generalize hdirs : ((readDir t tmp).filter (·.isDir)).map (·.name) = names at hmem
  have hsiblings : ∀ name ∈ names, name ∈ worldSiblings worldName := fun name hname =>
    hsub.subset ((hmem name).1 hname)
  have hentries : ∀ d ∈ readDir t tmp, IsName d.name := by
    intro d hd
    obtain ⟨n, hn, -⟩ := mem_readDir.1 hd
    rw [hlookup _ (List.cons_ne_nil _ _)] at hn
    exact ((closed_worldNodes skip hnodup hnames _ n hn).2.1 _ (List.mem_singleton_self _)).2
  have hswaps : restoreSwaps (joinPath parentDir tmpName) parentDir worldName true
      (readDir t tmp) = .ok (names.map fun name =>
        ⟨joinPath (joinPath parentDir tmpName) name, joinPath parentDir name⟩) := by
    have hall : names.filter (· ∈ worldSiblings worldName) = names :=
      List.filter_eq_self.2 fun name hname => decide_eq_true (hsiblings name hname)
    rw [restoreSwaps, if_pos rfl, stagedWorldSwaps]
    dsimp only
    rw [hdirs, hall, if_neg]
    intro hempty
    rw [List.map_eq_nil_iff] at hempty
    have hin := (hmem worldName).2 hbase
    rw [hempty] at hin
    exact List.not_mem_nil hin
  have hdistinct : names.Nodup := hdirs ▸ (nodup_readDir t tmp).sublist (List.filter_sublist.map _)
  have hstaged : stagedFolders t tmp (joinPath parentDir tmpName) true =
      names.map fun n => (joinPath (joinPath parentDir tmpName) n, tmp ++ [n]) := by
    rw [stagedFolders, if_pos rfl, ← hdirs, List.map_map]
    rfl
  have hfolder : ∀ r ∈ roots, stage t
      (names.map fun n => (joinPath (joinPath parentDir tmpName) n, tmp ++ [n])) folders
        (joinPath (joinPath parentDir tmpName) r.1) = some (archived skip r.1 r.2) := by
    intro r hr
    rw [stage, lookup_staged, if_pos ((hmem r.1).2 (List.mem_map_of_mem hr))]
    dsimp only
    rw [contentsAt_root hlookup hnodup hr]
  refine roundTrip_of_swaps hunzip (by rw [hmulti, hswaps]) (by rw [hmulti, hstaged])
    (swapPaths_stagedWorldSwaps (nodup_readDir t tmp) hentries hstamp hswaps) ?_ ?_ ?_ ?_ ?_
  · rw [List.map_map]
    exact hdistinct.map fun a b hab => joinPath_inj hab
  · intro p hp
    by_contra hno
    refine hp (List.lookup_eq_none_iff.2 fun e he => ?_)
    obtain ⟨name, hname, rfl⟩ := List.mem_map.1 he
    refine bne_iff_ne.2 fun heq => hno ⟨_, List.mem_map_of_mem hname, heq.symm⟩
  · intro sw hsw
    obtain ⟨name, hname, rfl⟩ := List.mem_map.1 hsw
    obtain ⟨r, hr, rfl⟩ := List.mem_map.1 ((hmem name).1 hname)
    exact ⟨_, List.mem_map_of_mem hr, rfl, hfolder r hr⟩
  · intro e he
    obtain ⟨r, hr, rfl⟩ := List.mem_map.1 he
    exact ⟨_, List.mem_map_of_mem ((hmem r.1).2 (List.mem_map_of_mem hr)), rfl, hfolder r hr⟩
  · intro name hname hnew sw hsw
    obtain ⟨other, hother, rfl⟩ := List.mem_map.1 hsw
    refine ⟨(staged_ne (hworld.sibling hname).2).symm, fun heq => ?_⟩
    rw [WorldSwap.aside, aside_name] at heq
    exact sibling_ne_aside (hsiblings other hother) hname (joinPath_inj heq).symm

/-- An archive of the contents of a world's own folder is restored over that folder. -/
theorem roundTrip_zipDir {tree : FileTree} {total : Nat} (hstamp : IsName stamp)
    (htmp : tmpName ∉ worldSiblings worldName)
    (htmpAside : tmpName ≠ worldName ++ ".bak-" ++ stamp)
    (hlevel : archived skip worldName tree ["level.dat"] ≠ none)
    (hsize : zipDeclaredTotal (zipDirWithProgress skip worldName tree.nodes) = .ok total) :
    RoundTrip fault stamp parentDir worldName [(worldName, archived skip worldName tree)] folders
      (restoreWorld fault stamp tmp (joinPath parentDir tmpName) parentDir worldName
        (zipDirWithProgress skip worldName tree.nodes) folders) := by
  rw [zipDirWithProgress_eq] at hsize ⊢
  obtain ⟨t, hunzip, -, hlookup⟩ := unzipTo_entries tmp
    (closed_archived skip worldName tree) (fun p n => mem_archivedNodes) hsize
  have hsingle : stagedLayoutIsMultiRoot t tmp worldName = false := by
    rw [stagedLayoutIsMultiRoot, hlookup _ (List.cons_ne_nil _ _),
      if_pos (Option.isSome_iff_ne_none.2 hlevel)]
  have hfolder : stage t [(joinPath parentDir tmpName, tmp)] folders (joinPath parentDir tmpName) =
      some (archived skip worldName tree) := by
    rw [stage, List.lookup_cons, beq_self_eq_true]
    dsimp only
    congr 1
    funext q
    by_cases hq : q = []
    · subst hq
      rw [contentsAt, if_pos rfl]
      cases hnode : archived skip worldName tree [] with
      | none => rfl
      | some n => exact absurd rfl (closed_archived skip worldName tree [] n hnode).1
    · rw [contentsAt, if_neg hq, hlookup q hq]
  have hself : worldName ∈ worldSiblings worldName := List.mem_cons_self
  have hpaths : SwapPaths stamp [⟨joinPath parentDir tmpName, joinPath parentDir worldName⟩] :=
    @swapPaths_restoreSwaps parentDir tmpName worldName stamp false [] _
      List.nodup_nil (fun e he => absurd he List.not_mem_nil) hstamp
      (fun heq => htmp (heq ▸ hself)) htmpAside rfl
  have hstaged : stagedFolders t tmp (joinPath parentDir tmpName)
      (stagedLayoutIsMultiRoot t tmp worldName) = [(joinPath parentDir tmpName, tmp)] := by
    rw [hsingle]
    rfl
  refine roundTrip_of_swaps hunzip (by rw [hsingle]; rfl) hstaged hpaths
    (List.nodup_singleton _) ?_ ?_ ?_ ?_
  · intro p hp
    refine ⟨_, List.mem_singleton_self _, ?_⟩
    by_contra hne
    refine hp (List.lookup_eq_none_iff.2 fun e he => ?_)
    obtain rfl := List.mem_singleton.1 he
    exact bne_iff_ne.2 fun heq => hne heq.symm
  · intro sw hsw
    obtain rfl := List.mem_singleton.1 hsw
    exact ⟨_, List.mem_singleton_self _, rfl, hfolder⟩
  · intro e he
    obtain rfl := List.mem_singleton.1 he
    exact ⟨_, List.mem_singleton_self _, rfl, hfolder⟩
  · intro name hname hnew sw hsw
    obtain rfl := List.mem_singleton.1 hsw
    refine ⟨fun heq => htmp (joinPath_inj heq ▸ hname), fun heq => ?_⟩
    rw [WorldSwap.aside, aside_name] at heq
    exact sibling_ne_aside hself hname (joinPath_inj heq).symm

end

/-- No archive leaves a `level.dat` out. -/
theorem archived_levelDat {skip : Bool} {root : String} {tree : FileTree}
    (h : tree.nodes.lookup ["level.dat"] ≠ none) : archived skip root tree ["level.dat"] ≠ none := by
  obtain ⟨n, hn⟩ := Option.ne_none_iff_exists'.1 h
  have hkeeps : keeps skip root (["level.dat"], n) = true := by
    cases n with
    | dir => rfl
    | file data =>
      have hname : toLower "level.dat" ∉ lodDatabaseNames := by decide
      refine keeps_file.2 fun hleft => hleft.elim (fun h => absurd h (by decide)) fun hlod => ?_
      have hdatabase := hlod.2
      rw [isLodDatabase] at hdatabase
      exact hname (of_decide_eq_true (Bool.and_eq_true_iff.1 hdatabase).1)
  rw [archived_eq_some.2 ⟨hn, hkeeps⟩]
  exact Option.some_ne_none n

/-- The backup of a world, restored: of every world with its dimensions but one called
`level.dat`, and of the old layout, the archives within the limits of an extraction. -/
theorem worldBackup_roundTrip (skip : Bool) (fault : Nat → Option String)
    (stamp parentDir tmpName worldName : String) (tmp : List String) (folders : Folders Contents)
    (hworld : IsComponent worldName) (hstamp : IsName stamp)
    (htmp : tmpName ∉ worldSiblings worldName) (htmpAside : tmpName ≠ worldName ++ ".bak-" ++ stamp) :
    (∀ (roots : List (String × FileTree)) (total : Nat), worldName ≠ "level.dat" →
      (roots.map Prod.fst).Sublist (worldSiblings worldName) → worldName ∈ roots.map Prod.fst →
      zipDeclaredTotal (zipRootsWithProgress skip (roots.map fun r => (r.1, r.2.nodes))) =
        .ok total →
      RoundTrip fault stamp parentDir worldName
        (roots.map fun r => (r.1, archived skip r.1 r.2)) folders
        (restoreWorld fault stamp tmp (joinPath parentDir tmpName) parentDir worldName
          (zipRootsWithProgress skip (roots.map fun r => (r.1, r.2.nodes))) folders)) ∧
    ∀ (tree : FileTree) (total : Nat), tree.nodes.lookup ["level.dat"] ≠ none →
      zipDeclaredTotal (zipDirWithProgress skip worldName tree.nodes) = .ok total →
      RoundTrip fault stamp parentDir worldName [(worldName, archived skip worldName tree)] folders
        (restoreWorld fault stamp tmp (joinPath parentDir tmpName) parentDir worldName
          (zipDirWithProgress skip worldName tree.nodes) folders) := by
  constructor
  · intro roots total hlevel hsub hbase hsize
    exact roundTrip_zipRoots hworld hlevel hstamp hsub hbase hsize
  · intro tree total hlevel hsize
    exact roundTrip_zipDir hstamp htmp htmpAside (archived_levelDat hlevel) hsize

/-! ## Worlds of one file -/

/-- A folder with one file in it. -/
def oneFile (name : String) (hname : IsComponent name) (data : List UInt8) : FileTree where
  nodes := (∅ : Tree).insert [name] (.file data)
  named p n h := by
    by_cases hp : p = [name]
    · subst hp
      refine ⟨List.cons_ne_nil _ _, fun a ha => ?_⟩
      rwa [List.mem_singleton.1 ha]
    · rw [AList.lookup_insert_ne hp] at h
      cases h
  closed p n h q hq hpre hne := by
    by_cases hp : p = [name]
    · subst hp
      obtain ⟨b, r, rfl⟩ := List.exists_cons_of_ne_nil hq
      obtain ⟨rfl, hrest⟩ := List.cons_prefix_cons.1 hpre
      exact absurd (by rw [List.prefix_nil.1 hrest]) hne
    · rw [AList.lookup_insert_ne hp] at h
      cases h

theorem isComponent_levelDat : IsComponent "level.dat" :=
  ⟨by decide, show '/' ∉ "level.dat".toList by decide⟩

/-- The folder of a world with nothing but its `level.dat`. -/
def levelDatOnly : FileTree := oneFile "level.dat" isComponent_levelDat [1]

/-- A restore beside no other folders. -/
def restoredWorld (worldName : String) (tree : FileTree) :
    Except RestoreError (List String) × Folders Contents :=
  restoreWorld (fun _ => none) "20260101-000000" ["srv", "konnekt-restore-1"]
    (joinPath "/srv" "konnekt-restore-1") "/srv" worldName
    (zipRootsWithProgress false [(worldName, tree.nodes)]) fun _ => none

/-- A file past the limit of an extraction is refused. -/
theorem restoredWorld_large {data : List UInt8} (h : maxZipEntrySize < data.length) :
    ∃ err, (restoredWorld "w" (oneFile "level.dat" isComponent_levelDat data)).1 =
      .error (.extracting err) := by
  have harchive : zipRootsWithProgress false
      [("w", (oneFile "level.dat" isComponent_levelDat data).nodes)] =
        [⟨"w/", []⟩, ⟨"w/level.dat", data⟩] := rfl
  have hdir : (ZipEntry.mk "w/" []).isDir = true := by decide
  have hfile : ¬ (ZipEntry.mk "w/level.dat" data).isDir = true := by
    change ¬ decide ("w/level.dat".toList.getLast? = some '/') = true
    decide
  have hfew : ¬ maxZipEntries < [ZipEntry.mk "w/" [], ⟨"w/level.dat", data⟩].length := by
    change ¬ maxZipEntries < 2
    decide
  rw [restoredWorld, harchive, restoreWorld, unzipTo, zipDeclaredTotal, if_neg hfew,
    declaredTotal, if_pos hdir, declaredTotal, if_neg hfile, if_pos h]
  exact ⟨_, rfl⟩

/-- A world called `level.dat` is restored one folder too deep, and one with a file of more than
64 GiB not at all. -/
theorem not_roundTrip_levelDat :
    ((restoredWorld "level.dat" levelDatOnly).2 "/srv/level.dat").bind (· ["level.dat"]) =
        some .dir ∧
      archived false "level.dat" levelDatOnly ["level.dat"] = some (.file [1]) ∧
      (restoredWorld "w" (oneFile "level.dat" isComponent_levelDat
        (List.replicate (2 ^ 36 + 1) 0))).1.isOk = false := by
  refine ⟨by decide +kernel, by decide +kernel, ?_⟩
  obtain ⟨err, herr⟩ := @restoredWorld_large (List.replicate (2 ^ 36 + 1) 0) (by
    rw [List.length_replicate]
    decide)
  rw [herr]
  rfl

/-- Any other world of one file comes back. -/
theorem worldBackup_roundTrip_levelDatOnly : ∃ targets,
    (restoredWorld "w" levelDatOnly).1 = .ok targets ∧
      (restoredWorld "w" levelDatOnly).2 "/srv/w" = some (archived false "w" levelDatOnly) := by
  have hround : RoundTrip (fun _ => none) "20260101-000000" "/srv" "w"
      [("w", archived false "w" levelDatOnly)] (fun _ => none) (restoredWorld "w" levelDatOnly) :=
    (worldBackup_roundTrip false (fun _ => none) "20260101-000000" "/srv" "konnekt-restore-1" "w"
      ["srv", "konnekt-restore-1"] (fun _ => none)
      ⟨by decide, show '/' ∉ "w".toList by decide⟩
      (show '/' ∉ "20260101-000000".toList by decide) (by decide) (by decide)).1
        [("w", levelDatOnly)] 1 (by decide) (by decide) (by decide) rfl
  obtain ⟨targets, htargets⟩ := hround.succeeds (fun _ => rfl) fun _ _ => rfl
  exact ⟨targets, htargets, hround.restored targets htargets _ (List.mem_singleton_self _)⟩

end Konnekt.Backup

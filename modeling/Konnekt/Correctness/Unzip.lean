import Konnekt.Backup.Unzip

/-!
# What extracting an archive writes

Whatever the entries of an archive are called and whatever they declare, extracting
it changes nothing outside the directory it is extracted to, adds the declared sizes
up without wrapping, and copies no more than the total it admits.
-/

namespace Konnekt.Backup

open Go

variable {cwd : List String} {destDir : String} {t : Tree} {x : Extraction}

/-- The path is that of a directory that is there, below others, and it ends in a name. -/
structure IsDirectory (cwd : List String) (destDir : String) (t : Tree) : Prop where
  named : Path.Named destDir
  dirs : ∀ p, p ≠ [] → p <+: Path.resolve cwd destDir → t.lookup p = some .dir

namespace ZipFile

variable {f : ZipFile} {files : List ZipFile}

/-- Where an entry is extracted to, if it is. -/
def target (cwd : List String) (destDir : String) (f : ZipFile) : List String :=
  Path.resolve cwd destDir ++ Path.below destDir f.name

/-- The text of the destination begins that of the joined path. -/
def Legal (destDir : String) (f : ZipFile) : Prop :=
  (Path.clean destDir ++ "/").toList <+:
    (Path.clean (Path.join [destDir, f.name]) ++ "/").toList

instance (destDir : String) (f : ZipFile) : Decidable (f.Legal destDir) :=
  inferInstanceAs (Decidable (_ <+: _))

/-! ## One entry -/

/-- What extracting an entry does. -/
inductive Extracts (cwd : List String) (destDir : String) (x : Extraction) (f : ZipFile) :
    Option String × Extraction → Prop
  | refused (e : String) : Extracts cwd destDir x f (some e, x)
  | directory {t : Tree} (hlegal : f.Legal destDir) (hdir : f.isDir = true)
      (hmade : x.tree.mkdirAll (f.target cwd destDir) = .ok t) :
      Extracts cwd destDir x f (none, { x with tree := t })
  | parents {t : Tree} (e : String) (hlegal : f.Legal destDir)
      (hmade : x.tree.mkdirAll (f.target cwd destDir).dropLast = .ok t) :
      Extracts cwd destDir x f (some e, { x with tree := t })
  | created {t : Tree} (e : String) (hlegal : f.Legal destDir)
      (hmade : x.tree.mkdirAll (f.target cwd destDir).dropLast = .ok t)
      (hfree : t.lookup (f.target cwd destDir) ≠ some .dir) :
      Extracts cwd destDir x f (some e, { x with tree := t.insert (f.target cwd destDir) (.file []) })
  | copied {t : Tree} (hlegal : f.Legal destDir) (hdir : f.isDir = false)
      (hmade : x.tree.mkdirAll (f.target cwd destDir).dropLast = .ok t)
      (hfree : t.lookup (f.target cwd destDir) ≠ some .dir) :
      Extracts cwd destDir x f (f.readFault,
        ⟨(t.insert (f.target cwd destDir) (.file [])).insert (f.target cwd destDir)
          (.file f.content), x.written + f.content.length⟩)

/-- A joined path that is legal leads to the target, and its directory to the one around it. -/
theorem resolve_of_legal (hdest : Path.Named destDir) (hlegal : f.Legal destDir) :
    Path.resolve cwd (Path.join [destDir, f.name]) = f.target cwd destDir ∧
      Path.resolve cwd (Path.dir (Path.join [destDir, f.name])) =
        (f.target cwd destDir).dropLast := by
  obtain ⟨hplain, hnames, hresolve⟩ := Path.resolve_join hdest hlegal
  obtain ⟨-, -, hclean⟩ := Path.names_join hdest.ne_empty f.name
  refine ⟨hresolve cwd, ?_⟩
  rw [target, ← hresolve cwd]
  obtain hnil | ⟨ups, up, hlast⟩ := List.eq_nil_or_concat (Path.below destDir f.name)
  · obtain ⟨ups, up, hups, hup⟩ := hdest
    rw [hnil, List.append_nil, hups] at hnames
    exact Path.resolve_dir hclean hnames hup cwd
  · rw [hlast, List.concat_eq_append, ← List.append_assoc] at hnames
    exact Path.resolve_dir hclean hnames (hplain up (by simp [hlast])) cwd

theorem extract_extracts (hdest : Path.Named destDir) (x : Extraction) (f : ZipFile) :
    Extracts cwd destDir x f (f.extract cwd destDir x) := by
  unfold extract
  by_cases hlegal : f.Legal destDir
  · obtain ⟨htarget, hdir⟩ := @resolve_of_legal cwd destDir f hdest hlegal
    have hpass : ¬ ¬ (Path.clean destDir ++ "/").toList <+:
        (Path.clean (Path.join [destDir, f.name]) ++ "/").toList := not_not_intro hlegal
    simp only [htarget, hdir, if_neg hpass]
    split
    · next hisDir =>
      split
      · exact .refused _
      · next hmade => exact .directory hlegal hisDir hmade
    · next hisDir =>
      split
      · exact .refused _
      · next t hmade =>
        split
        · exact .parents _ hlegal hmade
        · next hcreate =>
          obtain ⟨hfree, rfl⟩ := Tree.writeFile_eq_ok hcreate
          split
          · exact .created _ hlegal hmade hfree
          · exact .copied hlegal (by simpa using hisDir) hmade hfree
  · simp only [if_pos (show ¬ (Path.clean destDir ++ "/").toList <+: _ from hlegal)]
    exact .refused _

/-! ## What is left alone -/

/-- A path below the directory, and not the directory itself. -/
def StrictlyInside (cwd : List String) (destDir : String) (q : List String) : Prop :=
  Path.resolve cwd destDir <+: q ∧ q ≠ Path.resolve cwd destDir

/-- Two trees have the same nodes outside the directory. -/
def SameOutside (cwd : List String) (destDir : String) (t t' : Tree) : Prop :=
  ∀ q, ¬ StrictlyInside cwd destDir q → t'.lookup q = t.lookup q

theorem prefix_target : Path.resolve cwd destDir <+: f.target cwd destDir :=
  List.prefix_append _ _

/-- What is not strictly inside and leads to a target is there already. -/
theorem lookup_of_outside (hdest : IsDirectory cwd destDir t) {q path : List String}
    (hpath : path <+: f.target cwd destDir) (hq : ¬ StrictlyInside cwd destDir q) (hne : q ≠ [])
    (hpre : q <+: path) : t.lookup q = some .dir := by
  apply hdest.dirs q hne
  rcases List.prefix_or_prefix_of_prefix (hpre.trans hpath) prefix_target with hup | hdown
  · exact hup
  · by_cases heq : q = Path.resolve cwd destDir
    · rw [heq]
    · exact absurd ⟨hdown, heq⟩ hq

theorem sameOutside_mkdirAll (hdest : IsDirectory cwd destDir t) {path : List String} {t' : Tree}
    (hpath : path <+: f.target cwd destDir) (hmade : t.mkdirAll path = .ok t') :
    SameOutside cwd destDir t t' := by
  intro q hq
  rw [(Tree.mkdirAll_eq_ok hmade).2]
  split
  · next h => exact (lookup_of_outside hdest hpath hq h.1 h.2).symm
  · rfl

/-- A regular file is not created in the place of the directory. -/
theorem strictlyInside_of_free (hdest : IsDirectory cwd destDir t)
    (hfree : t.lookup (f.target cwd destDir) ≠ some .dir) :
    StrictlyInside cwd destDir (f.target cwd destDir) := by
  refine ⟨prefix_target, fun heq => hfree ?_⟩
  rw [heq]
  apply hdest.dirs _ ?_ (List.prefix_refl _)
  obtain ⟨ups, up, hups, hup⟩ := hdest.named
  have hlast : ∀ p ∈ [up], Path.Plain p := by simpa using hup
  rw [Path.resolve_eq_names, hups, ← List.append_assoc, Path.cleanParts_append_plain true _ hlast]
  simp

theorem isDirectory_of_same {t' : Tree} (hdest : IsDirectory cwd destDir t)
    (hsame : SameOutside cwd destDir t t') : IsDirectory cwd destDir t' := by
  refine ⟨hdest.named, fun p hne hpre => ?_⟩
  rw [hsame p ?_, hdest.dirs p hne hpre]
  rintro ⟨hbelow, hne'⟩
  exact hne' (hpre.eq_of_length_le hbelow.length_le)

theorem sameOutside_insert {t' : Tree} {path : List String} {n : Node}
    (hpath : StrictlyInside cwd destDir path) (hsame : SameOutside cwd destDir t t') :
    SameOutside cwd destDir t (t'.insert path n) := by
  intro q hq
  have hne : q ≠ path := fun heq => hq (heq ▸ hpath)
  rw [AList.lookup_insert_ne hne]
  exact hsame q hq

theorem Extracts.sameOutside (hdest : IsDirectory cwd destDir x.tree)
    {r : Option String × Extraction} (h : Extracts cwd destDir x f r) :
    SameOutside cwd destDir x.tree r.2.tree := by
  cases h with
  | refused e => exact fun _ _ => rfl
  | directory hlegal hdir hmade => exact sameOutside_mkdirAll hdest (List.prefix_refl _) hmade
  | parents e hlegal hmade => exact sameOutside_mkdirAll hdest (List.dropLast_prefix _) hmade
  | created e hlegal hmade hfree =>
    have hsame := sameOutside_mkdirAll hdest (List.dropLast_prefix _) hmade
    exact sameOutside_insert (strictlyInside_of_free (isDirectory_of_same hdest hsame) hfree) hsame
  | copied hlegal hdir hmade hfree =>
    have hsame := sameOutside_mkdirAll hdest (List.dropLast_prefix _) hmade
    have hinside := strictlyInside_of_free (isDirectory_of_same hdest hsame) hfree
    exact sameOutside_insert hinside (sameOutside_insert hinside hsame)

theorem sameOutside_extractAll (hdest : IsDirectory cwd destDir x.tree) (files : List ZipFile) :
    SameOutside cwd destDir x.tree (extractAll cwd destDir files x).2.tree := by
  induction files generalizing x with
  | nil => exact fun _ _ => rfl
  | cons f files ih =>
    have hstep := (@extract_extracts cwd destDir hdest.named x f).sameOutside hdest
    rw [extractAll]
    split
    · next e x' heq =>
      rw [heq] at hstep
      exact hstep
    · next x' heq =>
      rw [heq] at hstep
      intro q hq
      rw [ih (isDirectory_of_same hdest hstep) q hq]
      exact hstep q hq

/-! ## The sizes -/

/-- What the entries declare together; directories are not counted. -/
def declared (files : List ZipFile) : Nat :=
  ((files.filter fun f => !f.isDir).map fun f => f.uncompressedSize64.toNat).sum

theorem declared_append (files more : List ZipFile) :
    declared (files ++ more) = declared files + declared more := by
  simp [declared]

/-- An entry is too large to be extracted. -/
def TooLarge (f : ZipFile) : Prop :=
  f.isDir = false ∧ maxZipEntrySize < f.uncompressedSize64.toNat

/-- Two sizes that are admitted add up without wrapping. -/
theorem toNat_add_of_le {total size : UInt64} (htotal : total.toNat ≤ maxZipTotalSize)
    (hsize : size.toNat ≤ maxZipEntrySize) :
    (total + size).toNat = total.toNat + size.toNat ∧
      (total + size).toInt64.toInt = total.toNat + size.toNat := by
  have hsum : (total + size).toNat = total.toNat + size.toNat := by
    rw [UInt64.toNat_add]
    apply Nat.mod_eq_of_lt
    unfold maxZipTotalSize maxZipEntrySize at *
    omega
  refine ⟨hsum, ?_⟩
  have hbound : (total + size).toNat < 2 ^ 63 := by
    rw [hsum]
    unfold maxZipTotalSize maxZipEntrySize at *
    omega
  have hint : (total + size).toInt64.toInt = (total + size).toNat := by
    change (total + size).toBitVec.toInt = _
    apply BitVec.toInt_eq_toNat_of_lt
    change 2 * (total + size).toNat < 2 ^ 64
    omega
  rw [hint, hsum, Nat.cast_add]

theorem addDeclared_eq_ok {total total' : UInt64} (htotal : total.toNat ≤ maxZipTotalSize)
    (h : addDeclared total f = .ok total') :
    ¬ f.TooLarge ∧ total'.toNat = total.toNat + declared [f] ∧ total'.toNat ≤ maxZipTotalSize := by
  unfold addDeclared at h
  unfold TooLarge
  cases hdir : f.isDir with
  | true =>
    rw [if_pos hdir] at h
    obtain rfl := Except.ok.inj h
    simpa [declared, hdir] using htotal
  | false =>
    rw [if_neg (by simp [hdir])] at h
    split at h
    · cases h
    · next hsize =>
      have hsum := (toNat_add_of_le htotal (Nat.le_of_not_lt hsize)).1
      simp only at h
      split at h
      · cases h
      · next hfits =>
        obtain rfl := Except.ok.inj h
        refine ⟨fun hlarge => hsize hlarge.2, ?_, Nat.le_of_not_lt hfits⟩
        simpa [declared, hdir] using hsum

/-- As far as the loop gets, the total is the sum of what the entries declare. -/
theorem foldlM_addDeclared {total total' : UInt64} (htotal : total.toNat ≤ maxZipTotalSize)
    (h : files.foldlM addDeclared total = .ok total') :
    (∀ f ∈ files, ¬ f.TooLarge) ∧ total'.toNat = total.toNat + declared files ∧
      total'.toNat ≤ maxZipTotalSize := by
  induction files generalizing total with
  | nil =>
    obtain rfl := Except.ok.inj h
    exact ⟨by simp, rfl, htotal⟩
  | cons f files ih =>
    rw [List.foldlM_cons] at h
    cases hone : addDeclared total f with
    | error e =>
      rw [hone] at h
      cases h
    | ok total₁ =>
      rw [hone] at h
      obtain ⟨hsmall, hsum, hfits⟩ := addDeclared_eq_ok htotal hone
      obtain ⟨hsmalls, hrest, hfits'⟩ := ih hfits h
      refine ⟨List.forall_mem_cons.2 ⟨hsmall, hsmalls⟩, ?_, hfits'⟩
      have hsplit : declared (f :: files) = declared [f] + declared files := declared_append [f] files
      omega

/-- An archive that is admitted is within the limits. -/
theorem zipDeclaredTotal_eq_ok {n : Int64} (h : zipDeclaredTotal files = .ok n) :
    files.length ≤ maxZipEntries ∧ (∀ f ∈ files, ¬ f.TooLarge) ∧
      declared files ≤ maxZipTotalSize := by
  unfold zipDeclaredTotal at h
  split at h
  · cases h
  · next hlength =>
    cases hloop : files.foldlM addDeclared 0 with
    | error e =>
      rw [hloop] at h
      cases h
    | ok total =>
      obtain ⟨hsmall, hsum, hfits⟩ := foldlM_addDeclared (Nat.zero_le _) hloop
      rw [show (0 : UInt64).toNat = 0 from rfl, Nat.zero_add] at hsum
      exact ⟨Nat.le_of_not_lt hlength, hsmall, hsum ▸ hfits⟩

/-- Reading an entry gives no more than it declares. -/
def Honest (f : ZipFile) : Prop := f.content.length ≤ f.uncompressedSize64.toNat

theorem Extracts.written (hhonest : f.isDir = false → f.Honest)
    {r : Option String × Extraction} (h : Extracts cwd destDir x f r) :
    r.2.written ≤ x.written + declared [f] := by
  cases h with
  | copied hlegal hdir hmade hfree =>
    have hone : declared [f] = f.uncompressedSize64.toNat := by simp [declared, hdir]
    rw [hone]
    exact Nat.add_le_add_left (hhonest hdir) x.written
  | _ => exact Nat.le_add_right _ _

theorem written_extractAll (hdest : Path.Named destDir)
    (hhonest : ∀ f ∈ files, f.isDir = false → f.Honest) (x : Extraction) :
    (extractAll cwd destDir files x).2.written ≤ x.written + declared files := by
  induction files generalizing x with
  | nil => exact Nat.le_add_right _ _
  | cons f files ih =>
    have hstep := (@extract_extracts cwd destDir hdest x f).written (hhonest f List.mem_cons_self)
    have hsplit : declared (f :: files) = declared [f] + declared files := declared_append [f] files
    rw [extractAll]
    split
    · next e x' heq =>
      rw [heq] at hstep
      exact hstep.trans (by omega)
    · next x' heq =>
      rw [heq] at hstep
      change x'.written ≤ _ at hstep
      have hrest := ih (fun f' hf' => hhonest f' (List.mem_cons_of_mem f hf')) x'
      omega

/-! ## Every archive -/

/-- What extracting an archive does and does not do. -/
structure Confined (cwd : List String) (destDir : String) (t : Tree) (files : List ZipFile) :
    Prop where
  inside : SameOutside cwd destDir t (unzipTo cwd files destDir t).2.tree
  refused : maxZipEntries < files.length ∨ (∃ f ∈ files, f.TooLarge) ∨
    maxZipTotalSize < declared files → ∃ e, unzipTo cwd files destDir t = (some e, ⟨t, 0⟩)
  total : ∀ pre f post total, files = pre ++ f :: post →
    pre.foldlM addDeclared 0 = .ok total → f.isDir = false → ¬ f.TooLarge →
      (total + f.uncompressedSize64).toNat = declared (pre ++ [f]) ∧
        (total + f.uncompressedSize64).toInt64.toInt = (declared (pre ++ [f]) : Int)
  written : (∀ f ∈ files, f.isDir = false → f.Honest) →
    (unzipTo cwd files destDir t).2.written ≤ maxZipTotalSize

theorem confined_unzipTo (hdest : IsDirectory cwd destDir t) (files : List ZipFile) :
    Confined cwd destDir t files := by
  constructor
  · unfold unzipTo
    split
    · exact fun _ _ => rfl
    · exact sameOutside_extractAll (x := { tree := t }) hdest files
  · intro hlimit
    unfold unzipTo
    split
    · next e heq => exact ⟨e, rfl⟩
    · next n heq =>
      obtain ⟨hlength, hsmall, htotal⟩ := zipDeclaredTotal_eq_ok heq
      rcases hlimit with hlimit | ⟨f, hf, hlarge⟩ | hlimit
      · exact absurd hlength (Nat.not_le.2 hlimit)
      · exact absurd hlarge (hsmall f hf)
      · exact absurd htotal (Nat.not_le.2 hlimit)
  · rintro pre f post total rfl hloop hdir hsmall
    obtain ⟨-, hsum, hfits⟩ := foldlM_addDeclared (Nat.zero_le _) hloop
    have hsize : f.uncompressedSize64.toNat ≤ maxZipEntrySize := by
      apply Nat.le_of_not_lt
      exact fun hlarge => hsmall ⟨hdir, hlarge⟩
    obtain ⟨hadd, hadd'⟩ := toNat_add_of_le hfits hsize
    have hone : declared [f] = f.uncompressedSize64.toNat := by simp [declared, hdir]
    rw [hadd, hadd', hsum, declared_append, hone]
    simp
  · intro hhonest
    unfold unzipTo
    split
    · exact Nat.zero_le _
    · next n heq =>
      have hwritten := @written_extractAll cwd destDir files hdest.named hhonest { tree := t }
      obtain ⟨-, -, htotal⟩ := zipDeclaredTotal_eq_ok heq
      exact hwritten.trans (by rw [Nat.zero_add]; exact htotal)

/-! ## A restore into an empty directory -/

/-- A disk with an empty directory to extract to. -/
def restoreDisk : Tree :=
  AList.insert ["srv", "restore"] .dir (AList.insert ["srv"] .dir (∅ : Tree))

theorem isDirectory_restoreDisk : IsDirectory [] "/srv/restore" restoreDisk := by
  refine ⟨⟨["srv"], "restore", by decide, by decide⟩, fun p hne hpre => ?_⟩
  have hmem : p ∈ [["srv"], ["srv", "restore"]] := by
    have hdest : Path.resolve [] "/srv/restore" = ["srv", "restore"] := by decide
    rw [hdest] at hpre
    exact Tree.mem_tail_inits.2 ⟨hne, hpre⟩
  simp only [List.mem_cons, List.not_mem_nil, or_false] at hmem
  rcases hmem with rfl | rfl <;> rfl

/-- A directory is extracted whatever size it declares. -/
theorem not_refused_directory : ∃ f : ZipFile, maxZipTotalSize < f.uncompressedSize64.toNat ∧
    (unzipTo [] [f] "/srv/restore" restoreDisk).1 = none ∧
      (unzipTo [] [f] "/srv/restore" restoreDisk).2.tree.lookup ["srv", "restore", "d"] =
        some .dir :=
  ⟨{ name := "d/", uncompressedSize64 := 0xffffffffffffffff }, by decide +kernel⟩

/-- An archive of a file and of a path out of the directory. -/
theorem confined_unzipTo_outside : Confined [] "/srv/restore" restoreDisk
    [{ name := "a", uncompressedSize64 := 1, content := [7] }, { name := "../../etc/passwd" }] :=
  confined_unzipTo isDirectory_restoreDisk _

end ZipFile

end Konnekt.Backup

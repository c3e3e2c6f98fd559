import Konnekt.Snapshots.Index
import Mathlib.Data.Finset.Lattice.Lemmas

/-!
# What staging leaves

One pass over the databases cuts each into parts of one length, lists them all and
stages those that neither the snapshot before nor an earlier part has, each once and in
the order in which they come first.
-/

namespace Konnekt.Snapshots

open Go

section

variable {sha256 : List UInt8 → String} {disk : StageDisk} {st : DHStage} {n : Nat}
  {path : String} {known : Finset String} {r : Reader} {level : DHIndexLevel}
  {whole : List UInt8} {absent : List DHPart} {run : StageRun}

/-! ## One turn of the loop -/

theorem indexLoop_ne_ok (hn : 0 < n) {e : String} (hctx : st.ctx run.checks = some e)
    (result : DHIndexLevel × List DHPart) (run' : StageRun) :
    st.indexLoop sha256 disk hn path known r level whole absent run ≠ (.ok result, run') := by
  rw [DHStage.indexLoop, hctx]
  exact nofun

/-- A level with one more part. -/
def withPart (sha256 : List UInt8 → String) (level : DHIndexLevel) (chunk : List UInt8) :
    DHIndexLevel :=
  { level with parts := level.parts ++ [partOf sha256 chunk], size := level.size + chunk.length }

/-- A whole part is read. -/
theorem indexLoop_full (hn : 0 < n) (hctx : st.ctx run.checks = none)
    (hfull : n ≤ r.rest.length) : ∃ cuts,
    st.indexLoop sha256 disk hn path known r level whole absent run =
      match st.stagePart sha256 disk known (r.rest.take n) absent
        { run with checks := run.checks + 1 } with
      | (.error e, run) => (.error e, run)
      | (.ok absent, run) => st.indexLoop sha256 disk hn path known
          ⟨r.rest.drop n, cuts, r.broken⟩ (withPart sha256 level (r.rest.take n))
          (whole ++ r.rest.take n) absent run := by
  obtain ⟨cuts, heq⟩ := r.readFull_eq n
  have hne : r.rest.take n ≠ [] := by
    rw [← List.length_pos_iff, List.length_take]
    omega
  have hend : r.endOf n = .full := if_pos hfull
  refine ⟨cuts, ?_⟩
  rw [DHStage.indexLoop, hctx]
  generalize r.rest_readFull n = hnext
  revert hnext
  rw [heq, hend]
  intro hnext
  dsimp only
  rw [if_neg hne, if_neg hne]
  rcases st.stagePart sha256 disk known (r.rest.take n) absent
    { run with checks := run.checks + 1 } with ⟨_ | absent', run'⟩ <;> rfl

/-- What a file that ends gives. -/
def finish (disk : StageDisk) (path : String) (r : Reader) (result : DHIndexLevel × List DHPart) :
    Except String (DHIndexLevel × List DHPart) :=
  if r.broken then .error ("read " ++ path ++ ": " ++ disk.readError path) else .ok result

/-- The last part is read, and it is shorter. -/
theorem indexLoop_short (hn : 0 < n) (hctx : st.ctx run.checks = none)
    (hshort : r.rest.length < n) (hne : r.rest ≠ []) :
    st.indexLoop sha256 disk hn path known r level whole absent run =
      match st.stagePart sha256 disk known r.rest absent
        { run with checks := run.checks + 1 } with
      | (.error e, run) => (.error e, run)
      | (.ok absent, run) => (finish disk path r
          ({ withPart sha256 level r.rest with sha256 := sha256 (whole ++ r.rest) }, absent),
          run) := by
  obtain ⟨cuts, heq⟩ := r.readFull_eq n
  have hend : r.endOf n = if r.broken then .failed else .unexpectedEOF := by
    rw [Reader.endOf, if_neg (Nat.not_le_of_lt hshort), if_neg hne]
  rw [DHStage.indexLoop, hctx]
  generalize r.rest_readFull n = hnext
  revert hnext
  rw [heq, hend, List.take_of_length_le (Nat.le_of_lt hshort)]
  unfold finish
  cases r.broken
  all_goals
    intro hnext
    dsimp only
    rw [if_neg hne, if_neg hne]
    rcases st.stagePart sha256 disk known r.rest absent
      { run with checks := run.checks + 1 } with ⟨_ | absent', run'⟩ <;> rfl

/-- Nothing is left to read. -/
theorem indexLoop_end (hn : 0 < n) (hctx : st.ctx run.checks = none) (hnil : r.rest = []) :
    st.indexLoop sha256 disk hn path known r level whole absent run =
      (finish disk path r ({ level with sha256 := sha256 whole }, absent),
        { run with checks := run.checks + 1 }) := by
  obtain ⟨cuts, heq⟩ := r.readFull_eq n
  have hend : r.endOf n = if r.broken then .failed else .eof := by
    rw [Reader.endOf, hnil, if_neg (by simp; omega), if_pos rfl]
  have htake : r.rest.take n = [] := by rw [hnil, List.take_nil]
  rw [DHStage.indexLoop, hctx]
  generalize r.rest_readFull n = hnext
  revert hnext
  rw [heq, hend, htake]
  unfold finish
  cases r.broken
  all_goals
    intro hnext
    simp only [List.append_nil]
    rfl

/-! ## What is staged -/

/-- The chunks whose hash is neither known nor staged, each hash once. -/
def fresh (sha256 : List UInt8 → String) (known : Finset String) :
    Finset String → List (List UInt8) → List (List UInt8)
  | _, [] => []
  | staged, p :: ps =>
    if sha256 p ∈ known ∨ sha256 p ∈ staged then fresh sha256 known staged ps
    else p :: fresh sha256 known (insert (sha256 p) staged) ps

theorem fresh_append (staged : Finset String) (ps qs : List (List UInt8)) :
    fresh sha256 known staged (ps ++ qs) = fresh sha256 known staged ps ++
      fresh sha256 known (staged ∪ ((fresh sha256 known staged ps).map sha256).toFinset) qs := by
  induction ps generalizing staged with
  | nil => rw [List.nil_append, fresh, List.map_nil, List.toFinset_nil, Finset.union_empty,
      List.nil_append]
  | cons p ps ih =>
    rw [List.cons_append, fresh, fresh]
    split
    · exact ih staged
    · rw [ih, List.cons_append, List.map_cons, List.toFinset_cons, Finset.union_insert,
        Finset.insert_union]

/-- The hashes of what is fresh, in the order in which they come first. -/
theorem map_fresh (staged : Finset String) (ps : List (List UInt8)) :
    (fresh sha256 known staged ps).map sha256 =
      ((ps.map sha256).filter fun h => h ∉ known ∧ h ∉ staged).eraseDups := by
  induction ps generalizing staged with
  | nil => rfl
  | cons p ps ih =>
    rw [fresh, List.map_cons]
    split
    · next hold =>
      rw [ih, List.filter_cons_of_neg]
      rw [decide_eq_true_iff, ← not_or]
      exact not_not_intro hold
    · next hnew =>
      rw [List.map_cons, ih, List.filter_cons_of_pos (by simpa [not_or] using hnew),
        List.eraseDups_cons, List.filter_filter]
      congr 2
      apply List.filter_congr
      intro h _
      simp only [Finset.mem_insert, not_or]
      by_cases heq : h = sha256 p <;> simp [heq]

theorem fresh_subset {staged : Finset String} {ps : List (List UInt8)} {p : List UInt8}
    (h : p ∈ fresh sha256 known staged ps) : p ∈ ps := by
  induction ps generalizing staged with
  | nil => exact h
  | cons q ps ih =>
    rw [fresh] at h
    split at h
    · exact List.mem_cons_of_mem _ (ih h)
    · exact List.mem_cons.2 ((List.mem_cons.1 h).imp_right ih)

/-- The files of some chunks, added to a folder. -/
def added (sha256 : List UInt8 → String) (folder : GoMap (List UInt8)) (ps : List (List UInt8)) :
    GoMap (List UInt8) :=
  ps.foldl (fun folder p => folder.insert (sha256 p) p) folder

/-- What the reading of some chunks does to the absent parts and to the staging folder. -/
structure Stages (sha256 : List UInt8 → String) (st : DHStage) (known : Finset String)
    (ps : List (List UInt8)) (absent : List DHPart) (run : StageRun) (absent' : List DHPart)
    (run' : StageRun) : Prop where
  absent : absent' = absent ++ (fresh sha256 known run.staged ps).map (partOf sha256)
  staged : run'.staged = run.staged ∪ ((fresh sha256 known run.staged ps).map sha256).toFinset
  folder : run'.folder = if st.dir = "" then run.folder
    else added sha256 run.folder (fresh sha256 known run.staged ps)

variable {absent₁ absent₂ : List DHPart} {run₁ run₂ : StageRun} {ps qs : List (List UInt8)}

theorem Stages.append (h₁ : Stages sha256 st known ps absent run absent₁ run₁)
    (h₂ : Stages sha256 st known qs absent₁ run₁ absent₂ run₂) :
    Stages sha256 st known (ps ++ qs) absent run absent₂ run₂ where
  absent := by
    rw [h₂.absent, h₁.absent, h₁.staged, fresh_append, List.map_append, List.append_assoc]
  staged := by
    rw [h₂.staged, h₁.staged, fresh_append, List.map_append, List.toFinset_append,
      Finset.union_assoc]
  folder := by
    rw [h₂.folder, h₁.folder, h₁.staged, fresh_append, added, added, added, List.foldl_append]
    split <;> rfl

theorem stages_nil {checks : Nat} :
    Stages sha256 st known [] absent run absent { run with checks } where
  absent := (List.append_nil _).symm
  staged := by simp [fresh]
  folder := by
    split <;> rfl

theorem stages_of_stagePart {chunk : List UInt8} {absent' : List DHPart} {run' : StageRun}
    (h : st.stagePart sha256 disk known chunk absent run = (.ok absent', run')) :
    Stages sha256 st known [chunk] absent run absent' run' := by
  unfold DHStage.stagePart at h
  dsimp only [partOf] at h
  split at h
  · next hold =>
    obtain ⟨habsent, rfl⟩ := Prod.mk.inj h
    obtain rfl := Except.ok.inj habsent
    have hnone : fresh sha256 known run.staged [chunk] = [] := by
      rw [fresh, if_pos hold, fresh]
    refine ⟨?_, ?_, ?_⟩ <;> rw [hnone]
    · exact (List.append_nil _).symm
    · simp
    · split <;> rfl
  · next hnew =>
    have hone : fresh sha256 known run.staged [chunk] = [chunk] := by
      rw [fresh, if_neg hnew, fresh]
    unfold DHStage.writePart at h
    split at h
    · cases h
    · next run₁ hwritten =>
      obtain ⟨habsent, rfl⟩ := Prod.mk.inj h
      obtain rfl := Except.ok.inj habsent
      split at hwritten
      · next hdir =>
        obtain rfl := Except.ok.inj hwritten
        refine ⟨?_, ?_, ?_⟩ <;> rw [hone]
        · rfl
        · simp
        · rw [if_pos hdir]
      · next hdir =>
        split at hwritten
        · cases hwritten
        · obtain rfl := Except.ok.inj hwritten
          refine ⟨?_, ?_, ?_⟩ <;> rw [hone]
          · rfl
          · simp
          · rw [if_neg hdir]
            rfl

theorem stagePart_total (hwrite : ∀ hash, disk.writeError hash = none) (chunk : List UInt8) :
    ∃ absent' run', st.stagePart sha256 disk known chunk absent run = (.ok absent', run') := by
  unfold DHStage.stagePart DHStage.writePart
  dsimp only
  split
  · exact ⟨_, _, rfl⟩
  · rw [hwrite]
    split
    · next e herror => split at herror <;> cases herror
    · exact ⟨_, _, rfl⟩

/-! ## A database -/

/-- What the reading of a database adds to a level. -/
structure Indexes (sha256 : List UInt8 → String) (st : DHStage) (known : Finset String) (n : Nat)
    (content : List UInt8) (level : DHIndexLevel) (whole : List UInt8) (absent : List DHPart)
    (run : StageRun) (level' : DHIndexLevel) (absent' : List DHPart) (run' : StageRun) : Prop where
  folder : level'.folder = level.folder
  parts : level'.parts = level.parts ++ (pieces n content).map (partOf sha256)
  size : level'.size = level.size + content.length
  hash : level'.sha256 = sha256 (whole ++ content)
  stages : Stages sha256 st known (pieces n content) absent run absent' run'

theorem indexes_of_indexLoop (hn : 0 < n) {level' : DHIndexLevel} {absent' : List DHPart}
    {run' : StageRun} (h : st.indexLoop sha256 disk hn path known r level whole absent run =
      (.ok (level', absent'), run')) :
    Indexes sha256 st known n r.rest level whole absent run level' absent' run' := by
  induction hlength : r.rest.length using Nat.strong_induction_on
    generalizing r level whole absent run with
  | _ m ih =>
  subst hlength
  cases hctx : st.ctx run.checks with
  | some e => exact absurd h (indexLoop_ne_ok hn hctx _ _)
  | none =>
    -- The time that the context is asked is not part of what is staged.
    have hasked : Stages sha256 st known [] absent run absent
        { run with checks := run.checks + 1 } := stages_nil
    by_cases hfull : n ≤ r.rest.length
    · obtain ⟨cuts, heq⟩ := indexLoop_full hn hctx hfull
      rw [heq] at h
      split at h
      · cases h
      · next absent₁ run₁ hstaged =>
        have hdrop : (r.rest.drop n).length < r.rest.length := by
          rw [List.length_drop]
          omega
        have hrest := ih _ hdrop h rfl
        have hne : r.rest ≠ [] := by
          rintro hnil
          rw [hnil, List.length_nil] at hfull
          omega
        have hstep := hasked.append (stages_of_stagePart hstaged)
        refine ⟨hrest.folder, ?_, ?_, ?_, ?_⟩
        · rw [hrest.parts, pieces_of_ne hn hne, List.map_cons]
          exact List.append_assoc _ _ _
        · rw [hrest.size]
          change level.size + ((r.rest.take n).length : Int) + ((r.rest.drop n).length : Int) = _
          rw [List.length_take, List.length_drop]
          omega
        · rw [hrest.hash, List.append_assoc, List.take_append_drop]
        · rw [pieces_of_ne hn hne]
          exact hstep.append hrest.stages
    · by_cases hnil : r.rest = []
      · rw [indexLoop_end hn hctx hnil, finish] at h
        split at h
        · cases h
        · obtain ⟨hok, rfl⟩ := Prod.mk.inj h
          obtain ⟨rfl, rfl⟩ := Prod.mk.inj (Except.ok.inj hok)
          rw [hnil]
          refine ⟨rfl, ?_, ?_, ?_, ?_⟩
          · rw [pieces_nil]
            exact (List.append_nil _).symm
          · exact (add_zero _).symm
          · rw [List.append_nil]
          · rw [pieces_nil]
            exact hasked
      · rw [indexLoop_short hn hctx (Nat.lt_of_not_le hfull) hnil] at h
        split at h
        · cases h
        · next absent₁ run₁ hstaged =>
          unfold finish at h
          split at h
          · cases h
          · obtain ⟨hok, rfl⟩ := Prod.mk.inj h
            obtain ⟨rfl, rfl⟩ := Prod.mk.inj (Except.ok.inj hok)
            have hone : pieces n r.rest = [r.rest] := by
              have hle : r.rest.length ≤ n := Nat.le_of_not_le hfull
              rw [pieces_of_ne hn hnil, List.take_of_length_le hle, List.drop_eq_nil_of_le hle,
                pieces_nil]
            refine ⟨rfl, ?_, rfl, rfl, ?_⟩
            · rw [hone]
              rfl
            · rw [hone]
              exact hasked.append (stages_of_stagePart hstaged)

/-- A database that can be read and staged to its end is. -/
theorem indexLoop_total (hn : 0 < n) (hctx : ∀ i, st.ctx i = none)
    (hwrite : ∀ hash, disk.writeError hash = none) (hbroken : r.broken = false) :
    ∃ result run', st.indexLoop sha256 disk hn path known r level whole absent run =
      (.ok result, run') := by
  induction hlength : r.rest.length using Nat.strong_induction_on
    generalizing r level whole absent run with
  | _ m ih =>
  subst hlength
  by_cases hfull : n ≤ r.rest.length
  · obtain ⟨cuts, heq⟩ := indexLoop_full hn (hctx run.checks) hfull
    obtain ⟨absent₁, run₁, hstaged⟩ := stagePart_total hwrite (r.rest.take n)
    rw [heq, hstaged]
    apply ih (r.rest.drop n).length
    · rw [List.length_drop]
      omega
    · exact hbroken
    · rfl
  · by_cases hnil : r.rest = []
    · rw [indexLoop_end hn (hctx run.checks) hnil, finish, hbroken]
      exact ⟨_, _, rfl⟩
    · obtain ⟨absent₁, run₁, hstaged⟩ := stagePart_total hwrite r.rest
      rw [indexLoop_short hn (hctx run.checks) (Nat.lt_of_not_le hfull) hnil, hstaged]
      dsimp only
      rw [finish, hbroken]
      exact ⟨_, _, rfl⟩

/-! ## The databases of a run -/

/-- The bytes of a file that can be opened. -/
def contentOf (disk : StageDisk) (path : String) : List UInt8 :=
  match disk.openFile path with
  | .ok r => r.rest
  | .error _ => []

/-- The chunks of some databases. -/
def chunksOf (disk : StageDisk) (n : Nat) (levels : List DHLevel) : List (List UInt8) :=
  levels.flatMap fun l => pieces n (contentOf disk l.path)

/-- A level lists the parts of its database, its size and its hash. -/
def IsLevelOf (sha256 : List UInt8 → String) (disk : StageDisk) (n : Nat) (l : DHLevel)
    (level : DHIndexLevel) : Prop :=
  ∃ r, disk.openFile l.path = .ok r ∧ level = ⟨l.folder, r.rest.length, sha256 r.rest,
    (pieces n r.rest).map (partOf sha256)⟩

theorem indexes_of_indexDHDatabase {l : DHLevel} {levelAbsent : List DHPart} {run' : StageRun}
    (h : st.indexDHDatabase sha256 disk l.path l.folder known run =
      (.ok (level, levelAbsent), run')) :
    IsLevelOf sha256 disk st.partSize.toNat l level ∧
      Stages sha256 st known (pieces st.partSize.toNat (contentOf disk l.path)) [] run
        levelAbsent run' := by
  unfold DHStage.indexDHDatabase at h
  split at h
  · next hsize =>
    split at h
    · cases h
    · next r hopen =>
      have hindexes := indexes_of_indexLoop hsize h
      have hcontent : contentOf disk l.path = r.rest := by
        rw [contentOf, hopen]
      obtain ⟨folder, size, hash, parts⟩ := level
      obtain ⟨rfl, rfl, rfl, rfl, hstages⟩ := hindexes
      refine ⟨⟨r, hopen, ?_⟩, hcontent ▸ hstages⟩
      rw [zero_add, List.nil_append, List.nil_append]
  · cases h

theorem indexes_of_indexLevels {ls : List DHLevel} {levels levels' : List DHIndexLevel}
    {absent' : List DHPart} {run' : StageRun}
    (h : st.indexLevels sha256 disk known levels absent run ls =
      (.ok (levels', absent'), run')) :
    ∃ new, levels' = levels ++ new ∧
      List.Forall₂ (IsLevelOf sha256 disk st.partSize.toNat) ls new ∧
        Stages sha256 st known (chunksOf disk st.partSize.toNat ls) absent run absent' run' := by
  induction ls generalizing levels absent run with
  | nil =>
    obtain ⟨hok, rfl⟩ := Prod.mk.inj h
    obtain ⟨rfl, rfl⟩ := Prod.mk.inj (Except.ok.inj hok)
    exact ⟨[], (List.append_nil _).symm, .nil, stages_nil⟩
  | cons l ls ih =>
    unfold DHStage.indexLevels at h
    split at h
    · cases h
    · next level levelAbsent run₁ hlevel =>
      obtain ⟨hisLevel, hstages⟩ := indexes_of_indexDHDatabase hlevel
      obtain ⟨new, rfl, hnew, hrest⟩ := ih h
      have hshifted : Stages sha256 st known (pieces st.partSize.toNat (contentOf disk l.path))
          absent run (absent ++ levelAbsent) run₁ :=
        ⟨by rw [hstages.absent, List.nil_append], hstages.staged, hstages.folder⟩
      exact ⟨level :: new, by rw [List.append_assoc, List.singleton_append],
        .cons hisLevel hnew, hshifted.append hrest⟩

theorem indexLevels_total (hsize : 0 < st.partSize) (hctx : ∀ i, st.ctx i = none)
    (hwrite : ∀ hash, disk.writeError hash = none) {ls : List DHLevel}
    (hopen : ∀ l ∈ ls, ∃ r, disk.openFile l.path = .ok r ∧ r.broken = false)
    (levels : List DHIndexLevel) :
    ∃ result run', st.indexLevels sha256 disk known levels absent run ls = (.ok result, run') := by
  induction ls generalizing levels absent run with
  | nil => exact ⟨_, _, rfl⟩
  | cons l ls ih =>
    obtain ⟨⟨r, hr, hbroken⟩, hrest⟩ := List.forall_mem_cons.1 hopen
    have hpos : 0 < st.partSize.toNat := by omega
    have hindexed : ∃ result run', st.indexLoop sha256 disk hpos l.path known r
        ⟨l.folder, 0, "", []⟩ [] [] run = (.ok result, run') :=
      indexLoop_total hpos hctx hwrite hbroken
    obtain ⟨⟨level, levelAbsent⟩, run₁, hloop⟩ := hindexed
    have hdatabase : st.indexDHDatabase sha256 disk l.path l.folder known run =
        (.ok (level, levelAbsent), run₁) := by
      rw [DHStage.indexDHDatabase, dif_pos hpos, hr]
      exact hloop
    rw [DHStage.indexLevels, hdatabase]
    exact ih hrest _

/-! ## The folder -/

theorem lookup_added {folder : GoMap (List UInt8)} {ps : List (List UInt8)} {name : String} :
    (name ∉ ps.map sha256 → (added sha256 folder ps).lookup name = folder.lookup name) ∧
      (name ∈ ps.map sha256 → ∃ p ∈ ps, sha256 p = name ∧
        (added sha256 folder ps).lookup name = some p) := by
  induction ps generalizing folder with
  | nil => exact ⟨fun _ => rfl, nofun⟩
  | cons q ps ih =>
    obtain ⟨hother, hthere⟩ := @ih (folder.insert (sha256 q) q)
    rw [List.map_cons]
    constructor
    · intro hname
      obtain ⟨hne, hname⟩ := not_or.1 (mt List.mem_cons.2 hname)
      rw [added, List.foldl_cons]
      exact (hother hname).trans (AList.lookup_insert_ne hne)
    · intro hname
      by_cases hlater : name ∈ ps.map sha256
      · obtain ⟨p, hp, hhash, hlookup⟩ := hthere hlater
        exact ⟨p, List.mem_cons_of_mem _ hp, hhash, hlookup⟩
      · obtain rfl := (List.mem_cons.1 hname).resolve_right hlater
        exact ⟨q, List.mem_cons_self, rfl, (hother hlater).trans (AList.lookup_insert _)⟩

/-! ## Staging -/

/-- The parts that an index lists, in their order. -/
def DHIndex.parts (ix : DHIndex) : List DHPart := ix.levels.flatMap (·.parts)

/-- A level is its database cut into parts: all of the part size but the last, which is shorter,
and together the whole file, whose size and hash the level has. -/
def IsCutOf (sha256 : List UInt8 → String) (size : Int) (r : Reader) (folder : String)
    (level : DHIndexLevel) : Prop :=
  level.folder = folder ∧ level.size = r.rest.length ∧ level.sha256 = sha256 r.rest ∧
    ∃ ps : List (List UInt8), level.parts = ps.map (partOf sha256) ∧ ps.flatten = r.rest ∧
      (∀ p ∈ ps, p ≠ [] ∧ (p.length : Int) ≤ size) ∧ ∀ p ∈ ps.dropLast, (p.length : Int) = size

theorem parts_of_levels {ls : List DHLevel} {levels : List DHIndexLevel}
    (h : List.Forall₂ (IsLevelOf sha256 disk n) ls levels) :
    levels.flatMap (·.parts) = (chunksOf disk n ls).map (partOf sha256) := by
  induction h with
  | nil => rfl
  | @cons l level ls levels hlevel _ ih =>
    obtain ⟨r, hopen, rfl⟩ := hlevel
    have hcontent : contentOf disk l.path = r.rest := by
      rw [contentOf, hopen]
    rw [List.flatMap_cons, chunksOf, List.flatMap_cons, List.map_append, hcontent, ih]
    rfl

theorem IsLevelOf.isCutOf {l : DHLevel} (hsize : 0 < st.partSize)
    (h : IsLevelOf sha256 disk st.partSize.toNat l level) :
    ∃ r, disk.openFile l.path = .ok r ∧ IsCutOf sha256 st.partSize r l.folder level := by
  obtain ⟨r, hopen, rfl⟩ := h
  have hpos : 0 < st.partSize.toNat := by omega
  refine ⟨r, hopen, rfl, rfl, rfl, pieces st.partSize.toNat r.rest, rfl,
    flatten_pieces hpos r.rest, fun p hp => ?_, fun p hp => ?_⟩
  · obtain ⟨hne, hle⟩ := mem_pieces hp
    exact ⟨hne, by omega⟩
  · have hlength := length_of_mem_dropLast_pieces hp
    omega

variable {src : DHSnapshotSource} {prev : Option DHIndex} {keys : SnapshotKeys}
  {folder : GoMap (List UInt8)}

/-- What a run of staging gives: the databases cut into parts; as absent the parts that the index
before has not, each once and in the order in which they come first; and in the folder these parts
with their bytes, and nothing else that is new. -/
structure StagedAs (sha256 : List UInt8 → String) (disk : StageDisk) (st : DHStage)
    (src : DHSnapshotSource) (known : Finset String) (folder : GoMap (List UInt8)) (ix : DHIndex)
    (absent : List DHPart) (folder' : GoMap (List UInt8)) : Prop where
  levels : List.Forall₂ (fun l level => ∃ r, disk.openFile l.path = .ok r ∧
    IsCutOf sha256 st.partSize r l.folder level) src.levels ix.levels
  once : absent.map (·.sha256) = ((ix.parts.map (·.sha256)).filter (· ∉ known)).eraseDups
  listed : ∀ part ∈ absent, part ∈ ix.parts
  noFolder : st.dir = "" → folder' = folder
  others : ∀ name, name ∉ absent.map (·.sha256) → folder'.lookup name = folder.lookup name
  gained : st.dir ≠ "" → ∀ p ∈ chunksOf disk st.partSize.toNat src.levels,
    sha256 p ∉ known → folder'.lookup (sha256 p) = some p

theorem Stages.stagedAs (hsize : 0 < st.partSize)
    (hfree : ∀ p ∈ chunksOf disk st.partSize.toNat src.levels,
      ∀ q ∈ chunksOf disk st.partSize.toNat src.levels, sha256 p = sha256 q → p = q)
    {ix : DHIndex} (hlevels : List.Forall₂ (IsLevelOf sha256 disk st.partSize.toNat) src.levels
      ix.levels) {absent : List DHPart} {run : StageRun}
    (h : Stages sha256 st known (chunksOf disk st.partSize.toNat src.levels) [] ⟨∅, 0, folder⟩
      absent run) :
    StagedAs sha256 disk st src known folder ix absent run.folder := by
  have hparts : ix.parts =
      (chunksOf disk st.partSize.toNat src.levels).map (partOf sha256) :=
    parts_of_levels hlevels
  have habsent : absent = (fresh sha256 known ∅
      (chunksOf disk st.partSize.toNat src.levels)).map (partOf sha256) := h.absent
  have hhashes (ps : List (List UInt8)) :
      (ps.map (partOf sha256)).map (·.sha256) = ps.map sha256 := by
    rw [List.map_map]
    rfl
  have honce : absent.map (·.sha256) =
      ((ix.parts.map (·.sha256)).filter (· ∉ known)).eraseDups := by
    rw [habsent, hhashes, map_fresh, hparts, hhashes]
    simp
  refine ⟨?_, honce, ?_, ?_, ?_, ?_⟩
  · exact hlevels.imp fun l level hlevel => hlevel.isCutOf hsize
  · intro part hpart
    rw [habsent] at hpart
    obtain ⟨p, hp, rfl⟩ := List.mem_map.1 hpart
    rw [hparts]
    exact List.mem_map_of_mem (fresh_subset hp)
  · intro hdir
    rw [h.folder, if_pos hdir]
  · intro name hname
    rw [habsent, hhashes] at hname
    rw [h.folder]
    split
    · rfl
    · exact lookup_added.1 hname
  · intro hdir p hp hunknown
    have hname : sha256 p ∈ (fresh sha256 known ∅
        (chunksOf disk st.partSize.toNat src.levels)).map sha256 := by
      rw [map_fresh]
      simp only [List.mem_eraseDups, List.mem_filter, List.mem_map]
      exact ⟨⟨p, hp, rfl⟩, by simpa using hunknown⟩
    rw [h.folder, if_neg hdir]
    obtain ⟨q, hq, hhash, hlookup⟩ := lookup_added.2 hname
    obtain rfl := hfree q (fresh_subset hq) p hp hhash
    exact hlookup

/-- Staging that gives an index gives the databases, whatever the reads of their files are cut
into; and it gives one where the files can be read and written and the run is not cancelled. -/
theorem staged_of_run (hsize : 0 < st.partSize)
    (hfree : ∀ p ∈ chunksOf disk st.partSize.toNat src.levels,
      ∀ q ∈ chunksOf disk st.partSize.toNat src.levels, sha256 p = sha256 q → p = q) :
    ((∀ i, st.ctx i = none) → (∀ hash, disk.writeError hash = none) →
      (∀ l ∈ src.levels, ∃ r, disk.openFile l.path = .ok r ∧ r.broken = false) →
        ∃ ix absent folder', stageDHSnapshotRun sha256 disk src prev keys st folder =
          (.ok (ix, absent), folder')) ∧
    ∀ ix absent folder',
      stageDHSnapshotRun sha256 disk src prev keys st folder = (.ok (ix, absent), folder') →
        StagedAs sha256 disk st src (prev.elim ∅ DHIndex.partSet) folder ix absent folder' := by
  constructor
  · intro hctx hwrite hopen
    have hlevels : ∃ result run', st.indexLevels sha256 disk (prev.elim ∅ DHIndex.partSet) [] []
        ⟨∅, 0, folder⟩ src.levels = (.ok result, run') :=
      indexLevels_total hsize hctx hwrite hopen []
    obtain ⟨result, run', hok⟩ := hlevels
    rw [stageDHSnapshotRun, hok]
    exact ⟨_, _, _, rfl⟩
  · intro ix absent folder' h
    unfold stageDHSnapshotRun at h
    dsimp only at h
    split at h
    · cases h
    · next levels absent₁ run₁ hlevels =>
      obtain ⟨hok, rfl⟩ := Prod.mk.inj h
      obtain ⟨rfl, rfl⟩ := Prod.mk.inj (Except.ok.inj hok)
      obtain ⟨new, rfl, hnew, hstages⟩ := indexes_of_indexLevels hlevels
      exact @Stages.stagedAs _ _ _ _ _ _ hsize hfree ⟨_, _, _, _, _, _⟩ hnew _ _ hstages

end

/-- The digests of the parts and of the files of `sampleDisk`. -/
def sampleDigests : List (List UInt8 × String) :=
  [([1, 2], "a12871fee210fb8619291eaea194581cbd2531e4b23759d225f6806923f63222"),
    ([3], "084fed08b978af4d7d196a7446a86b58009e636b611db16211b65a9aadff29c5"),
    ([1, 2, 1, 2, 3], "422513573c4fae89c809ee63138949dd955259e51fff16007d2d9fda4f65cf90")]

def sampleSha256 (data : List UInt8) : String :=
  ((sampleDigests.find? fun d => d.1 == data).map (·.2)).getD ""

/-- Two databases that share a part; the first is read a byte at a time. -/
def sampleDisk : StageDisk where
  openFile path :=
    if path = "overworld" then .ok ⟨[1, 2, 1, 2, 3], [0, 0, 0, 0, 0], false⟩
    else .ok ⟨[1, 2], [], false⟩
  readError _ := ""
  writeError _ := none

def sampleSource : DHSnapshotSource :=
  ⟨"2.3.0", "server_key", [⟨"a", "overworld"⟩, ⟨"b", "nether"⟩]⟩

def sampleStage : DHStage := ⟨"/staging", 2, fun _ => none⟩

def sampleKeys : SnapshotKeys := ⟨"2026-01-01T00:00:00Z", "", "", "", "", "../../parts/", ""⟩

theorem staged_of_sampleDisk : ∃ ix absent folder',
    stageDHSnapshotRun sampleSha256 sampleDisk sampleSource none sampleKeys sampleStage ∅ =
      (.ok (ix, absent), folder') ∧
    StagedAs sampleSha256 sampleDisk sampleStage sampleSource ∅ ∅ ix absent folder' := by
  have hrun := @staged_of_run sampleSha256 sampleDisk sampleStage sampleSource none sampleKeys ∅
    (by decide) (by decide +kernel)
  have hopen : ∀ l ∈ sampleSource.levels,
      ∃ r, sampleDisk.openFile l.path = .ok r ∧ r.broken = false := by
    intro l hl
    rcases List.mem_cons.1 hl with rfl | hl
    · exact ⟨_, rfl, rfl⟩
    · obtain rfl := List.mem_singleton.1 hl
      exact ⟨_, rfl, rfl⟩
  obtain ⟨ix, absent, folder', hok⟩ := hrun.1 (fun _ => rfl) (fun _ => rfl) hopen
  exact ⟨ix, absent, folder', hok, hrun.2 ix absent folder' hok⟩

end Konnekt.Snapshots

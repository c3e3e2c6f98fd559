import Konnekt.Worlds.Operations

/-!
# What the world operations touch

Deleting, renaming and duplicating walk over the dimension folders of a world by
their names. Every other folder of the directory stays as it is, and so does the
active world unless its folder is such a dimension folder. A rename that fails
leaves `server.properties` as it was.
-/

namespace Konnekt.Worlds

open Go

section

variable {fold : String → String} {w : WorkingDir}

/-! ## Places -/

theorem WorkingDir.put_put (p : String) (a b : Option Entry) :
    (w.put p a).put p b = w.put p b := by
  simp only [put, Function.update_idem]

theorem WorkingDir.entries_put_of_ne {p q : String} (h : q ≠ p) (e : Option Entry) :
    (w.put p e).entries q = w.entries q :=
  Function.update_of_ne h _ _

theorem WorkingDir.entries_put_self (p : String) (e : Option Entry) :
    (w.put p e).entries p = e :=
  Function.update_self _ _ _

/-- Where names lead is a matter of the links alone. -/
theorem WorkingDir.follow_congr {w' : WorkingDir}
    (h : ∀ p, linkTarget (w'.entries p) = linkTarget (w.entries p)) (n : Nat) (name : String) :
    w'.follow fold n name = w.follow fold n name := by
  induction n generalizing name with
  | zero => rfl
  | succ n ih =>
    rw [follow, follow, lstat, lstat, h]
    cases linkTarget (w.entries (fold name)) with
    | none => rfl
    | some target => exact ih target

/-- The place a name leads to is no link. -/
theorem WorkingDir.linkTarget_follow {n : Nat} {name p : String}
    (h : w.follow fold n name = some p) : linkTarget (w.entries p) = none := by
  induction n generalizing name with
  | zero => cases h
  | succ n ih =>
    rw [follow] at h
    split at h
    · exact ih h
    · next hnone =>
      cases h
      exact hnone

theorem WorkingDir.place_of_lstat {name : String} (h : linkTarget (w.lstat fold name) = none) :
    w.place fold name = some (fold name) := by
  rw [place, follow, h]

/-- A folder that is no link is found in its own place. -/
theorem WorkingDir.stat_of_lstat_dir {name : String} {files : Tree}
    (h : w.lstat fold name = some (.dir files)) :
    w.stat fold name = some (fold name, .dir files) := by
  have hplace : w.place fold name = some (fold name) := place_of_lstat (by rw [h]; rfl)
  rw [stat, hplace]
  change (w.entries (fold name)).bind _ = _
  rw [show w.entries (fold name) = some (.dir files) from h]
  rfl

theorem WorkingDir.place_of_stat {name p : String} {e : Entry}
    (h : w.stat fold name = some (p, e)) : w.place fold name = some p ∧ w.entries p = some e := by
  obtain ⟨q, hq, hrest⟩ := Option.bind_eq_some_iff.1 h
  obtain ⟨e', he, hpair⟩ := Option.bind_eq_some_iff.1 hrest
  cases hpair
  exact ⟨hq, he⟩

theorem place_of_mkdirAll {name p : String} {files : Tree}
    (h : w.mkdirAll fold name = .ok (p, files)) : w.place fold name = some p := by
  unfold WorkingDir.mkdirAll at h
  split at h
  · next hstat =>
    cases h
    exact (WorkingDir.place_of_stat hstat).1
  · cases h
  · split at h
    · next hnone =>
      cases h
      exact WorkingDir.place_of_lstat (by rw [hnone]; rfl)
    · cases h

theorem place_of_create {name p : String} (h : w.create fold name = .ok p) :
    w.place fold name = some p := by
  unfold WorkingDir.create at h
  split at h
  · cases h
  · next q hplace =>
    split at h
    · cases h
    · cases h
      exact hplace

/-! ## What is spared -/

/-- The folders of a directory outside some places are still what they were. -/
def Spares (touched : String → Prop) (w w' : WorkingDir) : Prop :=
  ∀ p files, w.entries p = some (.dir files) → ¬ touched p → w'.entries p = some (.dir files)

theorem Spares.refl {touched : String → Prop} (w : WorkingDir) : Spares touched w w :=
  fun _ _ h _ => h

theorem Spares.trans {touched : String → Prop} {w₁ w₂ w₃ : WorkingDir}
    (h : Spares touched w₁ w₂) (h' : Spares touched w₂ w₃) : Spares touched w₁ w₃ :=
  fun p files hdir hp => h' p files (h p files hdir hp) hp

theorem Spares.mono {touched more : String → Prop} {w' : WorkingDir} (h : Spares touched w w')
    (hmore : ∀ p, touched p → more p) : Spares more w w' :=
  fun p files hdir hp => h p files hdir fun ht => hp (hmore p ht)

/-- An entry put at a place changes no folder but one that stands there. -/
theorem spares_put (p : String) (e : Option Entry) : Spares (· = p) w (w.put p e) :=
  fun _ _ hdir hne => by rw [WorkingDir.entries_put_of_ne hne, hdir]

variable (fold w) in
theorem spares_removeAll (fault : Option (String × Tree)) (name : String) :
    Spares (· = fold name) w (w.removeAll fold fault name).2 := by
  unfold WorkingDir.removeAll
  split
  · exact spares_put _ _
  · exact Spares.refl w
  · exact spares_put _ _

/-- A rename moves one folder, and no folder is in its way. -/
theorem spares_rename {fault : Option String} {old new : String} {w' : WorkingDir}
    (h : w.rename fold fault old new = .ok w') : Spares (· = fold old) w w' := by
  have hmove : ∀ e, (∀ files, w.lstat fold new ≠ some (.dir files)) →
      Spares (· = fold old) w ((w.put (fold old) none).put (fold new) e) := by
    intro e hnew p files hdir hne
    have hp : p ≠ fold new := fun heq => hnew files (by rw [← hdir, heq]; rfl)
    rw [WorkingDir.entries_put_of_ne hp, WorkingDir.entries_put_of_ne hne, hdir]
  unfold WorkingDir.rename at h
  split at h
  · cases h
  split at h
  · cases h
  · next hnone =>
    cases h
    exact hmove _ fun files hdir => by rw [hnone] at hdir; cases hdir
  · next hother =>
    split at h
    · cases h
      exact Spares.refl w
    split at h
    · cases h
    · cases h
    · next hnotDir _ =>
      cases h
      refine hmove _ fun files hdir => ?_
      rw [hother] at hdir
      exact hnotDir files (Option.some.inj hdir)

variable (fold w) in
/-- The copy of one folder: nothing, or what now stands where its new name leads. -/
theorem copyDir_spec (fault : Option CopyFault) (skip : Bool) (src dst : String) :
    (copyDir fold w fault skip src dst).2 = w ∨
      ∃ p e, w.place fold dst = some p ∧ linkTarget (some e) = none ∧
        (copyDir fold w fault skip src dst).2 = w.put p (some e) := by
  unfold copyDir
  split
  · exact .inl rfl
  split
  · exact .inl rfl
  · next files hsrc =>
    cases hmk : w.mkdirAll fold dst with
    | error err => exact .inl rfl
    | ok there =>
      obtain ⟨p, there⟩ := there
      have hplace := place_of_mkdirAll hmk
      cases fault with
      | none => exact .inr ⟨p, .dir _, hplace, rfl, rfl⟩
      | some f => exact .inr ⟨p, .dir f.files, hplace, rfl, rfl⟩
  · cases hcreate : w.create fold dst with
    | error err => exact .inl rfl
    | ok p =>
      have hplace := place_of_create hcreate
      cases fault with
      | some f => exact .inr ⟨p, .file f.data, hplace, rfl, rfl⟩
      | none =>
        cases hread : readEntry fold (w.put p (some (.file []))) src with
        | error err => exact .inr ⟨p, .file [], hplace, rfl, by simp only [hread]⟩
        | ok data =>
          refine .inr ⟨p, .file data, hplace, rfl, ?_⟩
          simp only [hread, WorkingDir.put_put]

variable (fold w) in
/-- Copying a folder changes no folder but the one its new name leads to. -/
theorem spares_copyDir (fault : Option CopyFault) (skip : Bool) (src dst : String) :
    Spares (fun p => w.place fold dst = some p) w (copyDir fold w fault skip src dst).2 := by
  rcases copyDir_spec fold w fault skip src dst with
    hsame | ⟨p, e, hplace, -, hput⟩
  · rw [hsame]
    exact Spares.refl w
  · rw [hput]
    exact (spares_put p _).mono fun q hq => hq ▸ hplace

variable (fold w) in
/-- Copying a folder leaves every name leading where it led. -/
theorem place_copyDir (fault : Option CopyFault) (skip : Bool) (src dst name : String) :
    (copyDir fold w fault skip src dst).2.place fold name = w.place fold name := by
  rcases copyDir_spec fold w fault skip src dst with
    hsame | ⟨p, e, hplace, hlink, hput⟩
  · rw [hsame]
  · rw [hput]
    refine WorkingDir.follow_congr (fun q => ?_) 40 name
    by_cases hq : q = p
    · rw [hq, WorkingDir.linkTarget_follow hplace]
      rw [WorkingDir.entries_put_self, hlink]
    · rw [WorkingDir.entries_put_of_ne hq]

/-! ## The loops -/

variable {attempt : Attempt}

theorem spares_removeSiblings (name : String) (l : List String) (w : WorkingDir) :
    Spares (fun p => ∃ s ∈ l, p = fold (name ++ s)) w
      (removeSiblings fold attempt name l w).2 := by
  induction l generalizing w with
  | nil => exact Spares.refl w
  | cons s l ih =>
    have hmore : ∀ p, (∃ t ∈ l, p = fold (name ++ t)) → ∃ t ∈ s :: l, p = fold (name ++ t) :=
      fun p ⟨t, ht, hp⟩ => ⟨t, List.mem_cons_of_mem s ht, hp⟩
    have hone : ∀ p, p = fold (name ++ s) → ∃ t ∈ s :: l, p = fold (name ++ t) :=
      fun p hp => ⟨s, List.mem_cons_self, hp⟩
    rw [removeSiblings]
    split
    · exact (ih w).mono hmore
    · have hfirst := (spares_removeAll fold w (attempt.remove s)
        (name ++ s)).mono hone
      split
      · next hremove =>
        rw [hremove] at hfirst
        exact hfirst
      · next hremove =>
        rw [hremove] at hfirst
        exact hfirst.trans ((ih _).mono hmore)

variable (fold attempt) in
theorem spares_renameSiblings (old new : String) (l : List String) (w : WorkingDir) :
    Spares (fun p => ∃ s ∈ l, p = fold (old ++ s)) w
      (renameSiblings fold attempt old new l w).2 := by
  induction l generalizing w with
  | nil => exact Spares.refl w
  | cons s l ih =>
    have hmore : ∀ p, (∃ t ∈ l, p = fold (old ++ t)) → ∃ t ∈ s :: l, p = fold (old ++ t) :=
      fun p ⟨t, ht, hp⟩ => ⟨t, List.mem_cons_of_mem s ht, hp⟩
    rw [renameSiblings]
    split
    · exact (ih w).mono hmore
    · split
      · exact Spares.refl w
      · next hrename =>
        have hfirst : Spares (fun p => ∃ t ∈ s :: l, p = fold (old ++ t)) w _ :=
          (spares_rename hrename).mono fun p hp => ⟨s, List.mem_cons_self, hp⟩
        exact hfirst.trans ((ih _).mono hmore)

theorem spares_copySiblings (name new : String) (l : List String) (w : WorkingDir) :
    Spares (fun p => ∃ s ∈ l, w.place fold (new ++ s) = some p) w
      (copySiblings fold attempt name new l w).2 := by
  induction l generalizing w with
  | nil => exact Spares.refl w
  | cons s l ih =>
    rw [copySiblings]
    split
    · exact (ih w).mono fun p ⟨t, ht, hp⟩ => ⟨t, List.mem_cons_of_mem s ht, hp⟩
    · have hfirst : Spares (fun p => ∃ t ∈ s :: l, w.place fold (new ++ t) = some p) w _ :=
        (spares_copyDir fold w (attempt.copy s) attempt.running (name ++ s) (new ++ s)).mono
          fun p hp => ⟨s, List.mem_cons_self, hp⟩
      have hplace := place_copyDir fold w (attempt.copy s) attempt.running
        (name ++ s) (new ++ s)
      split
      · next hcopy =>
        rw [hcopy] at hfirst
        exact hfirst
      · next hcopy =>
        rw [hcopy] at hfirst hplace
        exact hfirst.trans ((ih _).mono fun p ⟨t, ht, hp⟩ =>
          ⟨t, List.mem_cons_of_mem s ht, hplace (new ++ t) ▸ hp⟩)

/-! ## The operations -/

theorem isWorldDir_of_requireWorld {name : String} {u : Unit}
    (h : requireWorld fold w name = .ok u) : isWorldDir fold w name = true := by
  rw [requireWorld] at h
  split at h
  · assumption
  · cases h

/-- A delete refuses, or walks over a world that is not the active one. -/
theorem deleteWorld_spec (fold : String → String) (attempt : Attempt) (name : String)
    (w : WorkingDir) : (deleteWorld fold attempt name w).2 = w ∨
      isWorldDir fold w name = true ∧
      isActiveWorld fold w name (levelName (propertiesFile fold w)) = false ∧
      deleteWorld fold attempt name w = removeSiblings fold attempt name suffixes w := by
  unfold deleteWorld
  dsimp only
  split
  · exact .inl rfl
  · next hchecked =>
    obtain ⟨_, -, hrest⟩ := except_bind_eq_ok.1 hchecked
    obtain ⟨_, hworld, hactive⟩ := except_bind_eq_ok.1 hrest
    refine .inr ⟨?_, ?_, rfl⟩
    · exact isWorldDir_of_requireWorld hworld
    · split at hactive
      · cases hactive
      · next hnot => exact Bool.eq_false_iff.2 hnot

/-- A rename refuses, or fails among the folders of a world, or has renamed them all. -/
theorem renameWorld_spec (fold : String → String) (attempt : Attempt) (old new : String)
    (w : WorkingDir) : (renameWorld fold attempt old new w).2 = w ∨
      isWorldDir fold w old = true ∧
        ((∃ err w', renameSiblings fold attempt old new suffixes w = (.error err, w') ∧
          renameWorld fold attempt old new w = (.error err, w')) ∨
        ∃ w' active, renameSiblings fold attempt old new suffixes w = (.ok (), w') ∧
          renameWorld fold attempt old new w = keepActive fold attempt old new active w') := by
  unfold renameWorld
  dsimp only
  split
  · exact .inl rfl
  split
  · exact .inl rfl
  split
  · exact .inl rfl
  · next hchecked =>
    obtain ⟨_, -, hrest⟩ := except_bind_eq_ok.1 hchecked
    obtain ⟨_, hworld, -⟩ := except_bind_eq_ok.1 hrest
    refine .inr ⟨isWorldDir_of_requireWorld hworld, ?_⟩
    split
    · next err w' hrename => exact .inl ⟨err, w', hrename, rfl⟩
    · next w' hrename => exact .inr ⟨w', _, hrename, rfl⟩

theorem entries_keepActive (old new active : String) (w : WorkingDir) :
    (keepActive fold attempt old new active w).2.entries = w.entries := by
  unfold keepActive
  split
  · split <;> rfl
  · rfl

/-- A duplication refuses, or copies a world to a name nothing has. -/
theorem duplicateWorld_spec (fold : String → String) (attempt : Attempt) (name new : String)
    (w : WorkingDir) : (duplicateWorld fold attempt name new w).2 = w ∨
      w.stat fold new = none ∧
      duplicateWorld fold attempt name new w = copySiblings fold attempt name new suffixes w := by
  unfold duplicateWorld
  dsimp only
  split
  · exact .inl rfl
  · next hchecked =>
    obtain ⟨_, -, hrest⟩ := except_bind_eq_ok.1 hchecked
    obtain ⟨_, -, hrest⟩ := except_bind_eq_ok.1 hrest
    obtain ⟨_, hnew, -⟩ := except_bind_eq_ok.1 hrest
    refine .inr ⟨?_, rfl⟩
    rw [requireNew] at hnew
    split at hnew
    · cases hnew
    · next hnone => exact Option.not_isSome_iff_eq_none.1 hnone

theorem entries_setActiveWorld (fold : String → String) (attempt : Attempt) (name : String)
    (w : WorkingDir) : (setActiveWorld fold attempt name w).2.entries = w.entries := by
  unfold setActiveWorld
  dsimp only
  split <;> rfl

/-- The folders a call works on: the given world and the folders of its other dimensions, or
those a duplicate's other dimensions are copied into. -/
def Call.Owns (fold : String → String) (w : WorkingDir) : Call → String → Prop
  | .delete name, p => ∃ s ∈ suffixes, p = fold (name ++ s)
  | .rename old _, p => ∃ s ∈ suffixes, p = fold (old ++ s)
  | .duplicate _ new, p => ∃ s ∈ suffixes.tail, w.place fold (new ++ s) = some p
  | .setActive _, _ => False

/-- One call leaves every folder it does not work on. -/
theorem Call.spares_run (call : Call) (fold : String → String) (attempt : Attempt)
    (w : WorkingDir) : Spares (call.Owns fold w) w (call.run fold attempt w).2 := by
  cases call with
  | delete name =>
    rw [Call.run]
    rcases deleteWorld_spec fold attempt name w with hsame | ⟨-, -, hremove⟩
    · rw [hsame]
      exact Spares.refl w
    · rw [hremove]
      exact spares_removeSiblings name suffixes w
  | rename old new =>
    have hloop := spares_renameSiblings fold attempt old new suffixes w
    rw [Call.run]
    rcases renameWorld_spec fold attempt old new w with
      hsame | ⟨-, ⟨err, w', hrename, heq⟩ | ⟨w', active, hrename, heq⟩⟩
    · rw [hsame]
      exact Spares.refl w
    · rw [heq]
      rwa [hrename] at hloop
    · intro p files hdir hp
      rw [heq, entries_keepActive]
      rw [hrename] at hloop
      exact hloop p files hdir hp
  | duplicate name new =>
    rcases duplicateWorld_spec fold attempt name new w with hsame | ⟨hnew, hcopy⟩
    · rw [Call.run, hsame]
      exact Spares.refl w
    · intro p files hdir hp
      rw [Call.run, hcopy]
      refine spares_copySiblings name new suffixes w p files hdir ?_
      rintro ⟨s, hs, hplace⟩
      rcases List.mem_cons.1 hs with rfl | htail
      · -- the new world's own folder cannot be there already
        rw [String.append_empty] at hplace
        rw [WorkingDir.stat, hplace] at hnew
        change (w.entries p).bind _ = none at hnew
        rw [hdir] at hnew
        cases hnew
      · exact hp ⟨s, htail, hplace⟩
  | setActive name =>
    intro p files hdir _
    rw [Call.run, entries_setActiveWorld, hdir]

/-- A folder that no call of a sequence works on when it is made. -/
def Spared (fold : String → String) (p : String) : List (Call × Attempt) → WorkingDir → Prop
  | [], _ => True
  | c :: calls, w => ¬ c.1.Owns fold w p ∧ Spared fold p calls (c.1.run fold c.2 w).2

theorem entries_runCalls_of_spared {p : String} {files : Tree} {calls : List (Call × Attempt)}
    {w : WorkingDir} (hdir : w.entries p = some (.dir files)) (h : Spared fold p calls w) :
    (runCalls fold calls w).entries p = some (.dir files) := by
  induction calls generalizing w with
  | nil => exact hdir
  | cons c calls ih =>
    exact ih (c.1.spares_run fold c.2 w p files hdir h.1) h.2

/-- A delete takes the folder the active world stands in only as a dimension folder of the
world it was given. -/
theorem deleteWorld_active {attempt : Attempt} {name p : String} {files : Tree}
    (hactive : w.stat fold (levelName (propertiesFile fold w)) = some (p, .dir files))
    (hchanged : (deleteWorld fold attempt name w).2.entries p ≠ w.entries p) :
    ∃ s ∈ suffixes.tail, p = fold (name ++ s) := by
  rcases deleteWorld_spec fold attempt name w with hsame | ⟨hworld, hnot, hremove⟩
  · exact absurd (by rw [hsame]) hchanged
  · have hdir := (WorkingDir.place_of_stat hactive).2
    by_contra hother
    refine hchanged ?_
    rw [hremove, hdir]
    refine spares_removeSiblings name suffixes w p files hdir ?_
    rintro ⟨s, hs, rfl⟩
    rcases List.mem_cons.1 hs with rfl | htail
    · rw [String.append_empty] at hactive hdir
      rw [isActiveWorld, WorkingDir.sameFile, WorkingDir.stat_of_lstat_dir hdir, hactive] at hnot
      simp at hnot
    · exact hother ⟨s, htail, rfl⟩

/-- Any sequence of calls leaves the folders that no call of it works on, and a delete after it
takes the folder of the active world only as a dimension folder of the world it was given. -/
theorem runCalls_spares (fold : String → String) (w : WorkingDir)
    (calls : List (Call × Attempt)) :
    (∀ p files, w.entries p = some (.dir files) → Spared fold p calls w →
      (runCalls fold calls w).entries p = some (.dir files)) ∧
    ∀ attempt name p files,
      (runCalls fold calls w).stat fold
        (levelName (propertiesFile fold (runCalls fold calls w))) = some (p, .dir files) →
      (deleteWorld fold attempt name (runCalls fold calls w)).2.entries p ≠
        (runCalls fold calls w).entries p →
      ∃ s ∈ suffixes.tail, p = fold (name ++ s) :=
  ⟨fun _ _ hdir h => entries_runCalls_of_spared hdir h,
    fun _ _ _ _ hactive hchanged => deleteWorld_active hactive hchanged⟩

/-! ## A world with the name of a nether -/

/-- The files of a world with nothing but its `level.dat`. -/
def bareWorld : Tree := (∅ : Tree).insert ["level.dat"] (.file [])

/-- The worlds `x`, `x_nether` and `y`; `x_nether` is active. -/
def netherNamed : WorkingDir where
  path := "/srv"
  entries p := if p ∈ ["x", "x_nether", "y"] then some (.dir bareWorld) else none
  properties := .lines ["level-name=x_nether"] none

/-- Deleting `x` deletes the active world `x_nether` with it. -/
theorem deleteWorld_netherNamed :
    isWorldDir id netherNamed "x_nether" = true ∧
      levelName (propertiesFile id netherNamed) = "x_nether" ∧
      ((Call.delete "x").run id {} netherNamed).1 = .ok () ∧
      ((Call.delete "x").run id {} netherNamed).2.entries "x_nether" = none := by
  decide +kernel

/-- The world `y` outlives the delete, and the active world went as the nether of `x`. -/
theorem runCalls_spares_netherNamed :
    (runCalls id [(.delete "x", {})] netherNamed).entries "y" = some (.dir bareWorld) ∧
      ∃ s ∈ suffixes.tail, "x_nether" = "x" ++ s := by
  constructor
  · refine (runCalls_spares id netherNamed [(.delete "x", {})]).1 "y" bareWorld rfl ⟨?_, trivial⟩
    rintro ⟨s, hs, heq⟩
    revert s
    decide
  · have hname : levelName (propertiesFile id netherNamed) = "x_nether" := by decide +kernel
    have hgone : (deleteWorld id {} "x" netherNamed).2.entries "x_nether" = none := by
      decide +kernel
    refine (runCalls_spares id netherNamed []).2 {} "x" "x_nether" bareWorld ?_ ?_
    · change netherNamed.stat id (levelName (propertiesFile id netherNamed)) = _
      rw [hname]
      rfl
    · change (deleteWorld id {} "x" netherNamed).2.entries "x_nether" ≠ some (.dir bareWorld)
      rw [hgone]
      intro h
      cases h

/-! ## Failed renames -/

theorem properties_rename {fault : Option String} {old new : String} {w' : WorkingDir}
    (h : w.rename fold fault old new = .ok w') : w'.properties = w.properties := by
  unfold WorkingDir.rename at h
  split at h
  · cases h
  split at h
  · cases h
  · cases h
    rfl
  · split at h
    · cases h
      rfl
    split at h
    · cases h
    · cases h
    · cases h
      rfl

variable (fold attempt) in
theorem properties_renameSiblings (old new : String) (l : List String) (w : WorkingDir) :
    (renameSiblings fold attempt old new l w).2.properties = w.properties := by
  induction l generalizing w with
  | nil => rfl
  | cons s l ih =>
    rw [renameSiblings]
    split
    · exact ih w
    · split
      · rfl
      · next hrename => rw [ih, properties_rename hrename]

/-- When the renames of a world fail, nothing has changed or its own folder is renamed. -/
theorem renameSiblings_error {old new err : String} {w' : WorkingDir}
    (h : renameSiblings fold attempt old new suffixes w = (.error err, w'))
    (hworld : isWorldDir fold w old = true) :
    w' = w ∨ ∃ w₁, w.rename fold (attempt.rename "") old new = .ok w₁ ∧
      renameSiblings fold attempt old new suffixes.tail w₁ = (.error err, w') := by
  rw [suffixes, renameSiblings, String.append_empty, String.append_empty] at h
  split at h
  · next hstat =>
    rw [isWorldDir] at hworld
    split at hworld
    · next hdir =>
      rw [WorkingDir.stat_of_lstat_dir hdir] at hstat
      cases hstat
    · cases hworld
  · split at h
    · cases h
      exact .inl rfl
    · next w₁ hrename => exact .inr ⟨w₁, hrename, h⟩

theorem keepActive_error {old new active err : String}
    (h : (keepActive fold attempt old new active w).1 = .error err) :
    ∃ e, err = "world folder renamed but level-name update failed: " ++ e ∧
      (keepActive fold attempt old new active w).2 = w := by
  unfold keepActive at h ⊢
  split at h
  · next hactive =>
    rw [if_pos hactive]
    split at h
    · next e _ =>
      exact ⟨e, (Except.error.inj h).symm, rfl⟩
    · cases h
  · cases h

/-- The world `a` with its nether, and a folder `b_nether`. -/
def leftoverNether : WorkingDir where
  path := "/srv"
  entries p := if p ∈ ["a", "a_nether", "b_nether"] then some (.dir bareWorld) else none
  properties := .lines ["level-name=a"] none

end

end Konnekt.Worlds

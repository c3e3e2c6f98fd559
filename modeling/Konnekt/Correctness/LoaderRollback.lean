import Mathlib
import Konnekt.Correctness.LaunchReaders
import Konnekt.Loader.Update

/-!
# Launches after a failed update

A rollback restores the scripts that were there. The build launched before is
launched again when a script that was there decides it. An install that launches
from `libraries/` has nothing to restore, and a script or argfile the installer has
added stays and wins.
-/

namespace Konnekt.Loader

open Go Server

variable {p : Platform} {d : Disk} {files installed : LaunchFiles} {snapshot : Snapshot}
  {jarPath workingDir version : String} {jvmArgs : List String}

/-- After an update that has failed the server launches what it launched before. -/
def LaunchKept (p : Platform) (d : Disk) (jarPath workingDir : String) (jvmArgs : List String) :
    Prop :=
  ∀ version failing installed, version ≠ (detectLoaderVersion p d jarPath workingDir).1 →
    Installs (d.files workingDir) installed →
    ∀ d' restored err,
      updateWithRollback p d jarPath workingDir version failing installed =
        (d', restored, some err) →
      resolveLaunch p d' jarPath workingDir jvmArgs = resolveLaunch p d jarPath workingDir jvmArgs ∧
        detectLoaderVersion p d' jarPath workingDir = detectLoaderVersion p d jarPath workingDir

/-- The scripts up to the first one that names a loader are all there. -/
def DecidedByScript (files : LaunchFiles) : List LaunchScript → Prop
  | [] => False
  | s :: scripts => match files.script s with
    | none => False
    | some f => (parseLaunchScript f).bind loaderVersionFromTokens = none →
        DecidedByScript files scripts

/-- The directory a launch is read from, unless it is from a jar. -/
def launchPath (p : Platform) (d : Disk) (jarPath workingDir : String) : Option String :=
  let jarPath := trimSpace jarPath
  let dir := trimSpace workingDir
  let dir := if isLaunchScript jarPath ∧ dir = "" then p.dir jarPath else dir
  if isLaunchScript jarPath = false ∧ isJar jarPath ∧ d.jarExists jarPath then none
  else if dir = "" then none
  else some dir

/-! ## The files after a rollback -/

/-- A copied file is restored as it was. -/
theorem restoreFile_of_copyFile {file now : Option TextFile} {copy : Option String}
    (h : copyFile file = some copy) (hthere : file.isSome = true) : restoreFile copy now = file := by
  cases file with
  | none => cases hthere
  | some f =>
    cases f with
    | text content =>
      cases h
      rfl
    | unreadable => cases h

/-- A file that was not there stays as the installer has left it. -/
theorem restoreFile_of_none {now : Option TextFile} {copy : Option String}
    (h : copyFile none = some copy) : restoreFile copy now = now := by
  cases h
  rfl

theorem copyFile_script (h : snapshotLaunchFiles files = some snapshot) (s : LaunchScript) :
    copyFile (files.script s) = some (snapshot.script s) := by
  unfold snapshotLaunchFiles at h
  cases hsh : copyFile (files.script .runSh) with
  | none => simp [hsh] at h
  | some runSh =>
    cases hbat : copyFile (files.script .runBat) with
    | none => simp [hsh, hbat] at h
    | some runBat =>
      cases hjvm : copyFile files.userJvmArgs with
      | none => simp [hsh, hbat, hjvm] at h
      | some userJvmArgs =>
        simp only [hsh, hbat, hjvm, Option.pure_def, Option.bind_eq_bind, Option.bind_some,
          Option.some.injEq] at h
        cases h
        cases s with
        | runSh => exact hsh
        | runBat => exact hbat

theorem rollback_script (h : snapshotLaunchFiles files = some snapshot) {s : LaunchScript}
    (hthere : (files.script s).isSome = true) :
    (rollback snapshot installed).script s = files.script s :=
  restoreFile_of_copyFile (copyFile_script h s) hthere

theorem rollback_added (h : snapshotLaunchFiles files = some snapshot) {s : LaunchScript}
    (hnone : files.script s = none) :
    (rollback snapshot installed).script s = installed.script s := by
  have hcopy := copyFile_script h s
  rw [hnone] at hcopy
  exact restoreFile_of_none hcopy

/-! ## A launch that a script decides -/

/-- The first java line of the scripts. -/
def firstLine (files : LaunchFiles) (scripts : List LaunchScript) :
    Option (LaunchScript × List String) :=
  scripts.findSome? fun s =>
    ((files.script s).bind parseLaunchScript).map fun tokens => (s, tokens)

/-- The first build the scripts name. -/
def firstBuild (files : LaunchFiles) (scripts : List LaunchScript) : Option String :=
  scripts.findSome? fun s => ((files.script s).bind parseLaunchScript).bind loaderVersionFromTokens

/-- The scripts up to the deciding one give the java line and the build. -/
theorem firsts_of_decided {files' : LaunchFiles} {scripts : List LaunchScript}
    (hsame : ∀ s, (files.script s).isSome = true → files'.script s = files.script s)
    (h : DecidedByScript files scripts) :
    (∃ line, firstLine files' scripts = some line ∧ firstLine files scripts = some line) ∧
      ∃ v, firstBuild files' scripts = some v ∧ firstBuild files scripts = some v := by
  induction scripts with
  | nil => exact h.elim
  | cons s scripts ih =>
    cases hs : files.script s with
    | none =>
      rw [DecidedByScript, hs] at h
      exact h.elim
    | some f =>
      have hs' : files'.script s = some f := (hsame s (by rw [hs]; rfl)).trans hs
      simp only [DecidedByScript, hs] at h
      simp only [firstLine, firstBuild, List.findSome?_cons, hs, hs', Option.bind_some]
      cases hparse : parseLaunchScript f with
      | none =>
        rw [hparse] at h
        exact ih (h rfl)
      | some tokens =>
        simp only [hparse, Option.bind_some] at h
        simp only [Option.map_some, Option.bind_some, Option.some.injEq, exists_eq_left',
          true_and]
        cases hnamed : loaderVersionFromTokens tokens with
        | some v => exact ⟨v, rfl, rfl⟩
        | none => exact (ih (h hnamed)).2

/-- A directory in which a script decides launches the same with the same scripts. -/
theorem launch_of_decided {files' : LaunchFiles}
    (hsame : ∀ s, (files.script s).isSome = true → files'.script s = files.script s)
    (h : DecidedByScript files (launchScriptNames p)) (dir : String) :
    scriptLaunchArgs p dir files' jvmArgs = scriptLaunchArgs p dir files jvmArgs ∧
      detectFiles p files' = detectFiles p files := by
  obtain ⟨⟨line, hline', hline⟩, v, hv', hv⟩ := firsts_of_decided hsame h
  unfold firstLine at hline hline'
  unfold firstBuild at hv hv'
  constructor
  · unfold scriptLaunchArgs
    rw [hline, hline']
  · unfold detectFiles
    rw [hv, hv']

/-! ## The disk -/

theorem setFiles_self (dir : String) (files : LaunchFiles) (d : Disk) :
    (setFiles dir files d).files dir = files := by
  unfold setFiles
  exact Function.update_self dir files d.files

theorem setFiles_ne {dir other : String} (h : other ≠ dir) (files : LaunchFiles) (d : Disk) :
    (setFiles dir files d).files other = d.files other := by
  unfold setFiles
  exact Function.update_of_ne h files d.files

theorem detect_of_launchPath {dir : String} (h : launchPath p d jarPath workingDir = some dir) :
    detectLoaderVersion p d jarPath workingDir = detectFiles p (d.files dir) := by
  unfold launchPath at h
  unfold detectLoaderVersion
  simp only at h ⊢
  generalize trimSpace jarPath = jar at h ⊢
  generalize (if isLaunchScript jar = true ∧ trimSpace workingDir = "" then p.dir jar
    else trimSpace workingDir) = dir' at h ⊢
  by_cases hjar : isLaunchScript jar = false ∧ isJar jar = true ∧ d.jarExists jar = true
  · rw [if_pos hjar] at h
    cases h
  · by_cases hdir : dir' = ""
    · rw [if_neg hjar, if_pos hdir] at h
      cases h
    · rw [if_neg hjar, if_neg hdir] at h
      cases h
      rw [if_neg hjar, if_neg hdir]

/-- A launch depends on the jars and on the directory it is read from. -/
theorem launch_congr {d' : Disk} (hjars : d'.jarExists = d.jarExists)
    (hinstaller : d'.installer = d.installer)
    (hdir : ∀ dir, launchPath p d jarPath workingDir = some dir →
      scriptLaunchArgs p dir (d'.files dir) jvmArgs = scriptLaunchArgs p dir (d.files dir) jvmArgs ∧
        detectFiles p (d'.files dir) = detectFiles p (d.files dir)) :
    resolveLaunch p d' jarPath workingDir jvmArgs = resolveLaunch p d jarPath workingDir jvmArgs ∧
      detectLoaderVersion p d' jarPath workingDir = detectLoaderVersion p d jarPath workingDir := by
  unfold launchPath at hdir
  unfold resolveLaunch resolveLaunchFrom detectLoaderVersion
  simp only at hdir ⊢
  rw [hjars, hinstaller]
  generalize trimSpace jarPath = jar at hdir ⊢
  generalize (if isLaunchScript jar = true ∧ trimSpace workingDir = "" then p.dir jar
    else trimSpace workingDir) = dir at hdir ⊢
  by_cases hjar : isLaunchScript jar = false ∧ isJar jar = true ∧ d.jarExists jar = true
  · simp only [if_pos hjar, and_self]
  · by_cases hempty : dir = ""
    · simp only [if_neg hjar, if_pos hempty, and_self]
    · rw [if_neg hjar, if_neg hempty] at hdir
      obtain ⟨hargs, hdetect⟩ := hdir dir rfl
      simp only [if_neg hjar, if_neg hempty, hargs, hdetect, and_self]

/-- A failed update leaves the disk as it was, or rolls back what the installer has done. -/
theorem failed_update_cases {failing : FailingStep} {d' : Disk} {restored : Bool}
    {err : UpdateError}
    (h : updateWithRollback p d jarPath workingDir version failing installed =
      (d', restored, some err)) :
    d' = d ∨ ∃ snapshot, snapshotLaunchFiles (d.files workingDir) = some snapshot ∧
      d' = setFiles workingDir (rollback snapshot installed) d := by
  unfold updateWithRollback at h
  split at h
  · exact .inl (Prod.mk.inj h).1.symm
  · exact .inl (Prod.mk.inj h).1.symm
  · exact .inl (Prod.mk.inj h).1.symm
  · exact .inl (Prod.mk.inj h).1.symm
  · next snapshot hsnapshot => exact .inr ⟨snapshot, hsnapshot, (Prod.mk.inj h).1.symm⟩
  · next snapshot hsnapshot =>
    simp only at h
    split at h
    · exact .inr ⟨snapshot, hsnapshot, (Prod.mk.inj h).1.symm⟩
    · cases h

theorem launchKept_of_decided
    (h : launchPath p d jarPath workingDir = some workingDir →
      DecidedByScript (d.files workingDir) (launchScriptNames p)) :
    LaunchKept p d jarPath workingDir jvmArgs := by
  intro version failing installed _ _ d' restored err hfailed
  rcases failed_update_cases hfailed with rfl | ⟨snapshot, hsnapshot, rfl⟩
  · exact ⟨rfl, rfl⟩
  · refine launch_congr rfl rfl fun dir hdir => ?_
    by_cases heq : dir = workingDir
    · subst heq
      rw [setFiles_self]
      exact launch_of_decided (fun s hs => rollback_script hsnapshot hs) (h hdir) dir
    · rw [setFiles_ne heq]
      exact ⟨rfl, rfl⟩

/-! ## Builds the installer adds -/

theorem not_decided_cases {scripts : List LaunchScript} (h : ¬ DecidedByScript files scripts) :
    (∃ pre s post, scripts = pre ++ s :: post ∧ files.script s = none ∧
      ∀ s' ∈ pre, (files.script s').isSome = true ∧
        ((files.script s').bind parseLaunchScript).bind loaderVersionFromTokens = none) ∨
      ∀ s ∈ scripts, (files.script s).isSome = true ∧
        ((files.script s).bind parseLaunchScript).bind loaderVersionFromTokens = none := by
  induction scripts with
  | nil => exact .inr fun s hs => nomatch hs
  | cons s scripts ih =>
    cases hs : files.script s with
    | none => exact .inl ⟨[], s, scripts, rfl, hs, fun s' hs' => nomatch hs'⟩
    | some f =>
      rw [DecidedByScript, hs] at h
      obtain ⟨hnone, hrest⟩ := Classical.not_imp.1 h
      have hfirst : (files.script s).isSome = true ∧
          ((files.script s).bind parseLaunchScript).bind loaderVersionFromTokens = none := by
        rw [hs]
        exact ⟨rfl, hnone⟩
      rcases ih hrest with ⟨pre, t, post, rfl, ht, hpre⟩ | hall
      · exact .inl ⟨s :: pre, t, post, rfl, ht, List.forall_mem_cons.2 ⟨hfirst, hpre⟩⟩
      · exact .inr (List.forall_mem_cons.2 ⟨hfirst, hall⟩)

/-- The launcher of a build. -/
def launcher (build : String) : TextFile :=
  .text ("java @libraries/net/neoforged/neoforge/" ++ build ++ "/unix_args.txt")

/-- There is a launcher of another build. -/
theorem exists_launcher (old : String) : ∃ build, build ≠ old ∧
    (parseLaunchScript (launcher build)).bind loaderVersionFromTokens = some build := by
  by_cases hold : old = "1"
  · exact ⟨"2", by rw [hold]; decide, by decide +kernel⟩
  · exact ⟨"1", Ne.symm hold, by decide +kernel⟩

/-- A script the installer adds in front of the others decides the launch after a rollback. -/
theorem detect_of_added (hsnapshot : snapshotLaunchFiles files = some snapshot)
    {pre post : List LaunchScript} {s : LaunchScript} {build : String}
    (hscripts : launchScriptNames p = pre ++ s :: post) (hnone : files.script s = none)
    (hpre : ∀ s' ∈ pre, (files.script s').isSome = true ∧
      ((files.script s').bind parseLaunchScript).bind loaderVersionFromTokens = none)
    (hadded : installed.script s = some (launcher build))
    (hbuild : (parseLaunchScript (launcher build)).bind loaderVersionFromTokens = some build) :
    (detectFiles p (rollback snapshot installed)).1 = build := by
  have hfirst : firstBuild (rollback snapshot installed) (launchScriptNames p) = some build := by
    have hskip : firstBuild (rollback snapshot installed) pre = none := by
      unfold firstBuild
      rw [List.findSome?_eq_none_iff]
      intro s' hs'
      rw [rollback_script hsnapshot (hpre s' hs').1]
      exact (hpre s' hs').2
    unfold firstBuild at hskip ⊢
    rw [hscripts, List.findSome?_append, hskip, List.findSome?_cons, rollback_added hsnapshot hnone,
      hadded, Option.bind_some, hbuild]
    rfl
  unfold firstBuild at hfirst
  unfold detectFiles
  rw [hfirst]

/-! ## An argfile the installer adds -/

/-- A build that a list does not have. -/
theorem exists_build (l : List String) : ∃ build, build ∉ l ∧ build ≠ "" ∧
    ∀ c ∈ build.toList, c = '9' := by
  have hinj : Function.Injective fun n : Nat => String.ofList (List.replicate (n + 1) '9') := by
    intro m n h
    have hlist := String.ofList_injective h
    have hlength := congrArg List.length hlist
    rw [List.length_replicate, List.length_replicate] at hlength
    omega
  obtain ⟨build, ⟨n, rfl⟩, hnew⟩ :=
    (Set.infinite_range_of_injective hinj).exists_notMem_finset l.toFinset
  refine ⟨_, fun hmem => hnew (List.mem_toFinset.2 hmem), fun hempty => ?_, fun c hc => ?_⟩
  · have hnil := congrArg String.toList hempty
    rw [String.toList_ofList] at hnil
    cases hnil
  · rw [String.toList_ofList] at hc
    exact List.eq_of_mem_replicate hc

/-- A time later than that of every argfile. -/
theorem exists_later (argfiles : List Argfile) :
    ∃ t : Int, ∀ a ∈ argfiles, ∀ t', a.modTime = some t' → t' < t := by
  induction argfiles with
  | nil => exact ⟨0, fun a ha => nomatch ha⟩
  | cons a argfiles ih =>
    obtain ⟨t, ht⟩ := ih
    refine ⟨max t ((a.modTime.getD 0) + 1), List.forall_mem_cons.2 ⟨fun t' h => ?_, ?_⟩⟩
    · rw [h, Option.getD_some]
      omega
    · intro b hb t' h
      have := ht b hb t' h
      omega

/-- The newest argfile is one of the argfiles, so it is older than what is later than all. -/
theorem foldl_newerArgfile_lt {t : Int} {argfiles : List Argfile}
    (h : ∀ a ∈ argfiles, ∀ t', a.modTime = some t' → t' < t) (init : Option (String × Int))
    (hinit : ∀ r, init = some r → r.2 < t) :
    ∀ r, argfiles.foldl newerArgfile init = some r → r.2 < t := by
  induction argfiles generalizing init with
  | nil => exact hinit
  | cons a argfiles ih =>
    obtain ⟨ha, hrest⟩ := List.forall_mem_cons.1 h
    refine ih hrest _ fun r hr => ?_
    unfold newerArgfile at hr
    split at hr
    · exact hinit r hr
    · next t' htime =>
      cases hr
      exact ha t' htime
    · next t' build t'' htime =>
      split at hr
      · cases hr
        exact ha t' htime
      · cases hr
        exact hinit _ rfl

theorem newestBuild_append {t : Int} {argfiles : List Argfile} (build : String)
    (h : ∀ a ∈ argfiles, ∀ t', a.modTime = some t' → t' < t) :
    newestBuild (argfiles ++ [⟨build, some t⟩]) = some build := by
  unfold newestBuild
  rw [List.foldl_append, List.foldl_cons, List.foldl_nil]
  cases hnewest : argfiles.foldl newerArgfile none with
  | none => rfl
  | some r =>
    have hlt := foldl_newerArgfile_lt h none (fun r h => nomatch h) r hnewest
    simp only [newerArgfile, if_pos hlt, Option.map_some]

theorem slashes_joinWith {sep : String} (hsep : slashes sep = "/") (l : List String) :
    slashes (joinWith sep l) = Path.joinSlash (l.map slashes) := by
  induction l with
  | nil => rfl
  | cons s l ih =>
    cases l with
    | nil => rfl
    | cons t l =>
      have hne : (t :: l).map slashes ≠ [] := List.cons_ne_nil _ _
      rw [joinWith, slashes_append, slashes_append, hsep, ih, List.map_cons (l := t :: l),
        Path.joinSlash_cons _ hne]

/-- A text without backslashes is left as it is. -/
theorem slashes_of_not_mem {s : String} (h : '\\' ∉ s.toList) : slashes s = s := by
  have hsame : (s.toList.map fun c => if c = '\\' then '/' else c) = s.toList := by
    conv_rhs => rw [← List.map_id s.toList]
    apply List.map_congr_left
    intro c hc
    exact if_neg fun heq : c = '\\' => h (heq ▸ hc)
  rw [slashes, hsame, String.ofList_toList]

/-- The argfile of a build names it. -/
theorem tokenBuild_argfilePath {build : String} (hne : build ≠ "")
    (h : ∀ c ∈ build.toList, c = '9') :
    tokenBuild ("@" ++ argfilePath p .neoforge build) = some build := by
  have hsep : slashes (if p.windows then "\\" else "/") = "/" := by
    split <;> decide
  have hname : slashes (argfileName p) = argfileName p := by
    unfold argfileName
    split <;> decide
  have hbuild : slashes build = build := slashes_of_not_mem fun hmem => absurd (h _ hmem) (by decide)
  have hparts : ∀ part ∈ ["libraries", "net", "neoforged", "neoforge", build, argfileName p],
      '/' ∉ part.toList := by
    have hfile : '/' ∉ (argfileName p).toList := by
      unfold argfileName
      split <;> decide
    simp only [List.forall_mem_cons]
    exact ⟨by decide, by decide, by decide, by decide, fun hmem => absurd (h _ hmem) (by decide),
      hfile, fun part hpart => nomatch hpart⟩
  have hslashes : slashes (argfilePath p .neoforge build) =
      Path.joinSlash ["libraries", "net", "neoforged", "neoforge", build, argfileName p] := by
    have hpath : Loader.neoforge.path.map slashes = Loader.neoforge.path := by decide
    rw [argfilePath, slashes_joinWith hsep, List.map_append, hpath, List.map_cons, List.map_cons,
      List.map_nil, hbuild, hname]
    rfl
  have hsplit : splitChars '/' (slashes (argfilePath p .neoforge build)).toList =
      ["libraries", "net", "neoforged", "neoforge", build, argfileName p].map String.toList := by
    have hread := Path.parts_joinSlash (List.cons_ne_nil _ _) hparts
    rw [Path.parts, split, ← hslashes] at hread
    rw [← hread, List.map_map]
    conv_lhs => rw [← List.map_id (splitChars '/' _)]
    exact List.map_congr_left fun part _ => String.toList_ofList.symm
  unfold tokenBuild loaderBuild
  rw [trimPrefix_append, hsplit]
  have hfile : "args.txt".toList <:+ (argfileName p).toList := by
    unfold argfileName
    split <;> decide
  have hbuilt : build.toList ≠ [] := fun hnil => hne (String.toList_inj.1 hnil)
  simp only [List.map_cons, List.map_nil, List.reverse_cons, List.reverse_nil, List.nil_append,
    List.cons_append, hfile, hbuilt, ne_eq, not_false_eq_true, List.suffix_refl, true_or, and_self,
    if_true, String.ofList_toList]

/-- A build added under `libraries/` is the one launched after a rollback when no script names
one. -/
theorem detect_of_argfile (hsnapshot : snapshotLaunchFiles files = some snapshot) {build : String}
    (hall : ∀ s ∈ launchScriptNames p, (files.script s).isSome = true ∧
      ((files.script s).bind parseLaunchScript).bind loaderVersionFromTokens = none)
    (hnewest : newestBuild (installed.argfiles .neoforge) = some build)
    (htoken : tokenBuild ("@" ++ argfilePath p .neoforge build) = some build) :
    (detectFiles p (rollback snapshot installed)).1 = build := by
  have hscripts : firstBuild (rollback snapshot installed) (launchScriptNames p) = none := by
    unfold firstBuild
    rw [List.findSome?_eq_none_iff]
    intro s hs
    rw [rollback_script hsnapshot (hall s hs).1]
    exact (hall s hs).2
  have htokens : argfileTokens p (rollback snapshot installed) =
      (if (rollback snapshot installed).userJvmArgs.isSome then ["@user_jvm_args.txt"] else []) ++
        ["@" ++ argfilePath p .neoforge build] := by
    have hargfiles : (rollback snapshot installed).argfiles = installed.argfiles := rfl
    unfold argfileTokens
    rw [List.findSome?_cons, hargfiles, hnewest]
    rfl
  have hnamed : loaderVersionFromTokens (argfileTokens p (rollback snapshot installed)) =
      some build := by
    have huser : tokenBuild "@user_jvm_args.txt" = none := by decide
    rw [htokens, loaderVersionFromTokens, List.findSome?_append]
    split
    · rw [List.findSome?_cons, huser, List.findSome?_cons, htoken]
      rfl
    · rw [List.findSome?_cons, htoken]
      rfl
  unfold firstBuild at hscripts
  unfold detectFiles
  rw [hscripts, hnamed]

/-- Where no script decides the launch, an installer can leave another build to be launched. -/
theorem exists_left_behind (hsnapshot : snapshotLaunchFiles files = some snapshot)
    (h : ¬ DecidedByScript files (launchScriptNames p)) (old : String) :
    ∃ build installed, build ≠ old ∧ Installs files installed ∧
      (detectFiles p (rollback snapshot installed)).1 = build := by
  rcases not_decided_cases h with ⟨pre, s, post, hscripts, hnone, hpre⟩ | hall
  · -- a script in front of the one that names the build
    obtain ⟨build, hne, hbuild⟩ := exists_launcher old
    refine ⟨build, { files with
      script := fun s' => if s' = s then some (launcher build) else files.script s' }, hne, ?_, ?_⟩
    · refine ⟨fun s' hs' => ?_, id, fun loader a ha => ⟨a, ha, rfl⟩⟩
      by_cases heq : s' = s
      · simp only [heq, if_true, Option.isSome_some]
      · simp only [heq, if_false]
        exact hs'
    · exact detect_of_added hsnapshot hscripts hnone hpre (if_pos rfl) hbuild
  · -- a newer argfile
    obtain ⟨build, hnew, hempty, hdigits⟩ :=
      exists_build (old :: (files.argfiles .neoforge).map Argfile.build)
    obtain ⟨t, ht⟩ := exists_later (files.argfiles .neoforge)
    refine ⟨build, { files with
      argfiles := fun loader =>
        files.argfiles loader ++ if loader = .neoforge then [⟨build, some t⟩] else [] },
      fun heq => hnew (heq ▸ List.mem_cons_self), ?_, ?_⟩
    · refine ⟨fun s' hs' => hs', id, fun loader a ha => ⟨a, ?_, rfl⟩⟩
      exact List.mem_append_left _ ha
    · exact detect_of_argfile hsnapshot hall (newestBuild_append build ht)
        (tokenBuild_argfilePath hempty hdigits)

/-- A server launches after every failed update what it launched before, if and only if it is not
launched from the directory updated, or there a script decides the launch. -/
theorem launchKept_iff (hreads : snapshotLaunchFiles (d.files workingDir) ≠ none) :
    LaunchKept p d jarPath workingDir jvmArgs ↔
      (launchPath p d jarPath workingDir = some workingDir →
        DecidedByScript (d.files workingDir) (launchScriptNames p)) := by
  refine ⟨fun h hpath => ?_, launchKept_of_decided⟩
  obtain ⟨snapshot, hsnapshot⟩ := Option.ne_none_iff_exists'.1 hreads
  by_contra hnot
  obtain ⟨build, installed, hne, hinstalls, hdetect⟩ :=
    exists_left_behind hsnapshot hnot (detectLoaderVersion p d jarPath workingDir).1
  have hfailed : updateWithRollback p d jarPath workingDir build .installer installed =
      (setFiles workingDir (rollback snapshot installed) d, snapshot.any, some .installer) := by
    unfold updateWithRollback
    rw [hsnapshot]
  have hkept := (h build .installer installed hne hinstalls _ _ _ hfailed).2
  have hpath' : launchPath p (setFiles workingDir (rollback snapshot installed) d) jarPath
      workingDir = some workingDir := hpath
  rw [detect_of_launchPath hpath', setFiles_self] at hkept
  exact hne (hdetect.symm.trans (congrArg Prod.fst hkept))

/-- A NeoForge install that is launched by its script launches the same after a failed update. -/
theorem launchKept_neoforge :
    LaunchKept unix (directory (some neoforgeScript) none) "" "srv" ["-Xmx2G"] := by
  refine (launchKept_iff (by decide +kernel)).2 fun _ => ?_
  have hscript : ((directory (some neoforgeScript) none).files "srv").script .runSh =
      some neoforgeScript := rfl
  have hnames : (parseLaunchScript neoforgeScript).bind loaderVersionFromTokens =
      some "21.1.72" := by
    decide +kernel
  rw [show launchScriptNames unix = [.runSh, .runBat] from rfl, DecidedByScript, hscript]
  simp only [hnames, reduceCtorEq, false_implies]

/-- An install without scripts, once the installer has written `run.sh` and failed. -/
def afterScript : LaunchFiles :=
  { (directory none none).files "srv" with
    script := fun s => if s = .runSh then some (launcher "21.1.200") else none }

/-- The script the installer has added stays, and the server launches the new build. -/
theorem not_launchKept :
    (detectLoaderVersion unix (directory none none) "" "srv").2 = "libraries" ∧
      ¬ LaunchKept unix (directory none none) "" "srv" [] := by
  refine ⟨by decide +kernel, fun h => ?_⟩
  have hinstalls : Installs ((directory none none).files "srv") afterScript :=
    ⟨fun s hs => absurd hs (by cases s <;> decide), id, fun loader a ha => ⟨a, ha, rfl⟩⟩
  have hbuild := (h "21.1.200" .installer afterScript (by decide +kernel) hinstalls _ _ _ rfl).2
  exact absurd hbuild (by decide +kernel)

end Konnekt.Loader

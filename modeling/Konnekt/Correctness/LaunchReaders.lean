import Konnekt.Server.Launch

/-!
# The readers of a launch

The arguments of java come from the first script with a java line. The name shown is
that of the first script there is, and the build shown is the first one that any
script or argfile names. The three agree when the first script there is decides.
-/

namespace Konnekt.Server

open Go

variable {p : Platform} {d : Disk} {files : LaunchFiles} {jarPath workingDir : String}
  {jvmArgs : List String}

/-- The build an argfile among the arguments of java names. -/
def argfileBuild (t : String) : Option String :=
  (cutPrefix "@" t).bind fun path => loaderBuild (slashes path)

/-- The build of the first loader argfile among the arguments of java. -/
def namedBuild (args : List String) : String := (args.findSome? argfileBuild).getD ""

/-- The build and the file shown are those of the arguments java is given. -/
def ReadersAgree (p : Platform) (d : Disk) (jarPath workingDir : String) (jvmArgs : List String) :
    Prop :=
  ∀ args file, resolveLaunchFrom p d jarPath workingDir jvmArgs = .ok (args, file) →
    (detectLoaderVersion p d jarPath workingDir).1 = namedBuild args ∧
      describeLaunch p d jarPath workingDir = file

/-- No script or argfile can be launched from. -/
def NothingLaunches (p : Platform) (files : LaunchFiles) (scripts : List LaunchScript) : Prop :=
  (∀ s ∈ scripts, (files.script s).bind parseLaunchScript = none) ∧ argfileTokens p files = []

/-- No script or argfile names a loader. -/
def NamesNone (p : Platform) (files : LaunchFiles) (scripts : List LaunchScript) : Prop :=
  (∀ s ∈ scripts, ((files.script s).bind parseLaunchScript).bind loaderVersionFromTokens = none) ∧
    loaderVersionFromTokens (argfileTokens p files) = none

/-- The first of the scripts that is there has a java line, or else nothing can be launched; a
build its java line names is that of an argfile, and without one nothing else names a loader. -/
def FirstDecides (p : Platform) (files : LaunchFiles) : List LaunchScript → Prop
  | [] => True
  | s :: scripts => match files.script s with
    | none => FirstDecides p files scripts
    | some f => match parseLaunchScript f with
      | none => NothingLaunches p files scripts
      | some tokens => (loaderVersionFromTokens tokens).getD "" = namedBuild tokens ∧
          (loaderVersionFromTokens tokens = none → NamesNone p files scripts)

/-! ## Builds in arguments -/

theorem tokenBuild_of_argfileBuild {t v : String} (h : argfileBuild t = some v) :
    tokenBuild t = some v := by
  obtain ⟨path, hpath, hv⟩ := Option.bind_eq_some_iff.1 h
  rw [tokenBuild, trimPrefix, hpath]
  exact hv

theorem loaderBuild_ne_empty {path v : String} (h : loaderBuild path = some v) : v ≠ "" := by
  unfold loaderBuild at h
  split at h
  · split at h
    · next hpath =>
      cases h
      intro hempty
      exact hpath.2.1 (String.ofList_injective hempty)
    · cases h
  · cases h

theorem ne_empty_of_findSome {tokens : List String} {v : String}
    (h : loaderVersionFromTokens tokens = some v) : v ≠ "" := by
  obtain ⟨t, -, ht⟩ := List.exists_of_findSome?_eq_some h
  exact loaderBuild_ne_empty ht

theorem namedBuild_of_none {tokens : List String} (h : loaderVersionFromTokens tokens = none) :
    namedBuild tokens = "" := by
  have hnone : tokens.findSome? argfileBuild = none := by
    rw [List.findSome?_eq_none_iff]
    intro t ht
    cases hb : argfileBuild t with
    | none => rfl
    | some v =>
      have htoken := List.findSome?_eq_none_iff.1 h t ht
      rw [tokenBuild_of_argfileBuild hb] at htoken
      cases htoken
  rw [namedBuild, hnone]
  rfl

/-- The arguments of the server's own stand between the tokens and change no build. -/
theorem namedBuild_spliceJVMArgs (hown : ∀ t ∈ jvmArgs, argfileBuild t = none)
    (tokens : List String) : namedBuild (spliceJVMArgs tokens jvmArgs) = namedBuild tokens := by
  have hjvm : jvmArgs.findSome? argfileBuild = none := List.findSome?_eq_none_iff.2 hown
  have hsplice : ∀ n, (tokens.take n ++ jvmArgs ++ tokens.drop n).findSome? argfileBuild =
      tokens.findSome? argfileBuild := by
    intro n
    rw [List.findSome?_append, List.findSome?_append, hjvm, Option.or_none,
      ← List.findSome?_append, List.take_append_drop]
  have hnogui : argfileBuild "--nogui" = none := by decide
  have hout : ∀ n, (if hasNoGui (tokens.take n ++ jvmArgs ++ tokens.drop n) then
      tokens.take n ++ jvmArgs ++ tokens.drop n
    else tokens.take n ++ jvmArgs ++ tokens.drop n ++ ["--nogui"]).findSome? argfileBuild =
      tokens.findSome? argfileBuild := by
    intro n
    split
    · exact hsplice n
    · rw [List.findSome?_append, hsplice, List.findSome?_cons, hnogui, List.findSome?_nil,
        Option.or_none]
  exact congrArg (Option.getD · "") (hout _)

/-- The path of a loader's argfile ends in `args.txt`. -/
theorem suffix_of_loaderBuild {path v : String} (h : loaderBuild path = some v) :
    "args.txt".toList <:+ path.toList := by
  unfold loaderBuild at h
  split at h
  · next file build project group net rest hparts =>
    split at h
    · next hpath =>
      have hsplit : splitChars '/' path.toList =
          (build :: project :: group :: net :: rest).reverse ++ [file] := by
        rw [← List.reverse_reverse (splitChars '/' path.toList), hparts, List.reverse_cons]
      exact hpath.1.trans (suffix_of_splitChars hsplit)
    · cases h
  · cases h

/-- The path of a jar names no build. -/
theorem argfileBuild_of_isJar {path : String} (h : isJar path = true) :
    argfileBuild path = none := by
  cases hbuild : argfileBuild path with
  | none => rfl
  | some v =>
    obtain ⟨rest, hrest, hv⟩ := Option.bind_eq_some_iff.1 hbuild
    have htext : (slashes rest).toList.getLast? = some 't' := by
      obtain ⟨lead, hlead⟩ := suffix_of_loaderBuild hv
      rw [← hlead, List.getLast?_append]
      rfl
    have hlast : rest.toList.getLast? = some 't' := by
      rw [slashes, String.toList_ofList, List.getLast?_map, Option.map_eq_some_iff] at htext
      obtain ⟨c, hc, hslash⟩ := htext
      split at hslash
      · cases hslash
      · rw [hc, hslash]
    have hpath : path.toList.getLast? = some 't' := by
      obtain ⟨lead, hlead⟩ : rest.toList <:+ path.toList := by
        unfold cutPrefix at hrest
        split at hrest
        · cases hrest
          rw [String.toList_ofList]
          exact List.drop_suffix _ _
        · cases hrest
      rw [← hlead, List.getLast?_append, hlast]
      rfl
    obtain ⟨lead, hlead⟩ := List.isSuffixOf_iff_suffix.1 h
    have hlower := congrArg List.getLast? hlead
    simp only [toLower, String.toList_ofList, List.getLast?_map, hpath, List.getLast?_append]
      at hlower
    have hjar : ".jar".toList.getLast? = some 'r' := by decide
    rw [hjar, Option.some_or] at hlower
    exact absurd hlower (by decide)

/-! ## Launches from a directory -/

section

variable (p files jvmArgs)

/-- The arguments of a launch from one of the scripts or an argfile, and the file. -/
def launchOf (scripts : List LaunchScript) : Option (List String × String) :=
  match scripts.findSome? fun s =>
      ((files.script s).bind parseLaunchScript).map fun tokens => (s, tokens) with
  | some (s, tokens) => some (spliceJVMArgs tokens jvmArgs, s.name)
  | none =>
    if argfileTokens p files = [] then none
    else some (spliceJVMArgs (argfileTokens p files) jvmArgs, argfileName p)

/-- The name shown for one of the scripts or an argfile. -/
def shownOf (scripts : List LaunchScript) : String :=
  match scripts.find? fun s => (files.script s).isSome with
  | some s => s.name
  | none => match (argfileTokens p files).getLast? with
    | some t => baseName (trimPrefix t "@")
    | none => ""

/-- The build shown for the scripts and the argfiles. -/
def buildOf (scripts : List LaunchScript) : String :=
  ((scripts.findSome? fun s =>
    ((files.script s).bind parseLaunchScript).bind loaderVersionFromTokens).or
      (loaderVersionFromTokens (argfileTokens p files))).getD ""

end

theorem buildOf_eq_detectFiles : buildOf p files (launchScriptNames p) = (detectFiles p files).1 := by
  unfold buildOf detectFiles
  split
  · next v hv => rw [hv]; rfl
  · next hnone =>
    rw [hnone, Option.none_or]
    split
    · next v hv => rw [hv]; rfl
    · next hlib => rw [hlib]; rfl

theorem launchOf_eq_scriptLaunchArgs (dir : String) (launch : List String × String) :
    launchOf p files jvmArgs (launchScriptNames p) = some launch ↔
      scriptLaunchArgs p dir files jvmArgs = .ok launch := by
  unfold launchOf scriptLaunchArgs
  cases (launchScriptNames p).findSome? fun s =>
      ((files.script s).bind parseLaunchScript).map fun tokens => (s, tokens) with
  | some found => simp only [Option.some.injEq, Except.ok.injEq]
  | none =>
    simp only
    by_cases hnil : argfileTokens p files = []
    · simp only [hnil, if_pos, reduceCtorEq]
    · simp only [hnil, if_false, Option.some.injEq, Except.ok.injEq]

/-- Nothing is launched exactly when nothing can be. -/
theorem launchOf_eq_none {scripts : List LaunchScript} :
    launchOf p files jvmArgs scripts = none ↔ NothingLaunches p files scripts := by
  have hscripts : (scripts.findSome? fun s =>
      ((files.script s).bind parseLaunchScript).map fun tokens => (s, tokens)) = none ↔
        ∀ s ∈ scripts, (files.script s).bind parseLaunchScript = none := by
    simp only [List.findSome?_eq_none_iff, Option.map_eq_none_iff]
  unfold launchOf NothingLaunches
  rw [← hscripts]
  cases scripts.findSome? fun s =>
      ((files.script s).bind parseLaunchScript).map fun tokens => (s, tokens) with
  | some found => simp only [reduceCtorEq, false_and]
  | none =>
    by_cases hnil : argfileTokens p files = []
    · simp only [hnil, if_pos, and_self]
    · simp only [hnil, if_false, reduceCtorEq, and_false]

/-- No build is shown exactly when nothing names one. -/
theorem buildOf_eq_empty {scripts : List LaunchScript} :
    buildOf p files scripts = "" ↔ NamesNone p files scripts := by
  have hscripts : (scripts.findSome? fun s =>
      ((files.script s).bind parseLaunchScript).bind loaderVersionFromTokens) = none ↔
        ∀ s ∈ scripts,
          ((files.script s).bind parseLaunchScript).bind loaderVersionFromTokens = none := by
    simp only [List.findSome?_eq_none_iff]
  unfold buildOf NamesNone
  rw [← hscripts]
  cases hfound : scripts.findSome? fun s =>
      ((files.script s).bind parseLaunchScript).bind loaderVersionFromTokens with
  | some v =>
    obtain ⟨s, -, hs⟩ := List.exists_of_findSome?_eq_some hfound
    obtain ⟨tokens, -, hv⟩ := Option.bind_eq_some_iff.1 hs
    simp [ne_empty_of_findSome hv]
  | none =>
    cases hlib : loaderVersionFromTokens (argfileTokens p files) with
    | some v => simp [ne_empty_of_findSome hlib]
    | none => simp

/-- What is launched is one of the scripts or an argfile. -/
theorem file_of_launchOf {scripts : List LaunchScript} {args : List String} {file : String}
    (h : launchOf p files jvmArgs scripts = some (args, file)) :
    (∃ s ∈ scripts, file = s.name) ∨ file = argfileName p := by
  unfold launchOf at h
  split at h
  · next s tokens hfound =>
    obtain ⟨s', hmem, hs⟩ := List.exists_of_findSome?_eq_some hfound
    obtain ⟨tokens', -, heq⟩ := Option.map_eq_some_iff.1 hs
    cases heq
    cases h
    exact .inl ⟨s, hmem, rfl⟩
  · split at h
    · cases h
    · cases h
      exact .inr rfl

/-- The tokens of an argfile launch: its last one is the argfile. -/
theorem argfileTokens_cases : argfileTokens p files = [] ∨ ∃ loader build, argfileTokens p files =
    (if files.userJvmArgs.isSome then ["@user_jvm_args.txt"] else []) ++
      ["@" ++ argfilePath p loader build] := by
  unfold argfileTokens
  split
  · exact .inl rfl
  · next path hpath =>
    obtain ⟨loader, -, hloader⟩ := List.exists_of_findSome?_eq_some hpath
    obtain ⟨build, -, rfl⟩ := Option.map_eq_some_iff.1 hloader
    exact .inr ⟨loader, build, rfl⟩

theorem slashes_append (a b : String) : slashes (a ++ b) = slashes a ++ slashes b := by
  apply String.toList_inj.1
  simp only [slashes, String.toList_append, String.toList_ofList, List.map_append]

theorem joinWith_append (sep name : String) {l : List String} (hne : l ≠ []) :
    joinWith sep (l ++ [name]) = joinWith sep l ++ sep ++ name := by
  induction l with
  | nil => exact absurd rfl hne
  | cons s l ih =>
    cases l with
    | nil => rfl
    | cons t l =>
      have hcons := ih (List.cons_ne_nil t l)
      rw [List.cons_append, List.cons_append, joinWith, ← List.cons_append, hcons, joinWith]
      simp only [String.append_assoc]

theorem baseName_argfilePath (loader : Loader) (build : String) :
    baseName (argfilePath p loader build) = argfileName p := by
  have hsplit : loader.path ++ [build, argfileName p] = (loader.path ++ [build]) ++ [argfileName p] := by
    rw [List.append_assoc]
    rfl
  have hname : slashes (argfileName p) = argfileName p := by
    unfold argfileName
    split <;> decide
  have hsep : slashes (if p.windows then "\\" else "/") = "/" := by
    split <;> decide
  rw [argfilePath, hsplit, joinWith_append _ _ (by simp), baseName, slashes_append, slashes_append,
    hname, hsep]
  apply Path.base_append
  · unfold argfileName
    split <;> decide
  · unfold argfileName
    split <;> decide

theorem shown_of_argfile (hne : argfileTokens p files ≠ []) :
    shownOf p files [] = argfileName p := by
  obtain ⟨loader, build, htokens⟩ := argfileTokens_cases.resolve_left hne
  have hlast : (argfileTokens p files).getLast? = some ("@" ++ argfilePath p loader build) := by
    rw [htokens, List.getLast?_append]
    rfl
  simp only [shownOf, List.find?_nil, hlast, trimPrefix_append]
  exact baseName_argfilePath loader build

/-- A token that names an argfile names the argfile's build. -/
theorem tokenBuild_at (path : String) : tokenBuild ("@" ++ path) = argfileBuild ("@" ++ path) := by
  rw [tokenBuild, argfileBuild, trimPrefix_append, cutPrefix_append]
  rfl

theorem build_of_argfile : (loaderVersionFromTokens (argfileTokens p files)).getD "" =
    namedBuild (argfileTokens p files) := by
  have hsame : ∀ t ∈ argfileTokens p files, tokenBuild t = argfileBuild t := by
    intro t ht
    rcases argfileTokens_cases with hnil | ⟨loader, build, htokens⟩
    · rw [hnil] at ht
      cases ht
    · rw [htokens] at ht
      rcases List.mem_append.1 ht with huser | hpath
      · have hat : "@user_jvm_args.txt" = "@" ++ "user_jvm_args.txt" := by decide
        split at huser
        · rw [List.mem_singleton.1 huser, hat]
          exact tokenBuild_at _
        · cases huser
      · rw [List.mem_singleton.1 hpath]
        exact tokenBuild_at _
  have hfirst : ∀ l : List String, (∀ t ∈ l, tokenBuild t = argfileBuild t) →
      l.findSome? tokenBuild = l.findSome? argfileBuild := by
    intro l hl
    induction l with
    | nil => rw [List.findSome?_nil, List.findSome?_nil]
    | cons t l ih =>
      rw [List.findSome?_cons, List.findSome?_cons, hl t List.mem_cons_self,
        ih fun u hu => hl u (List.mem_cons_of_mem t hu)]
  rw [loaderVersionFromTokens, namedBuild, hfirst _ hsame]

/-- The names of scripts are no names of argfiles. -/
theorem name_ne_argfileName (s : LaunchScript) : s.name ≠ argfileName p := by
  unfold argfileName
  cases s <;> split <;> decide

theorem name_injective : Function.Injective LaunchScript.name := by
  intro s s' h
  cases s <;> cases s' <;> first | rfl | exact absurd h (by decide)

/-- The first script without a java line is shown, and is not what is launched. -/
theorem nothingLaunches_iff {s : LaunchScript} {scripts : List LaunchScript}
    (hnotin : s ∉ scripts) :
    (∀ args file, launchOf p files jvmArgs scripts = some (args, file) →
      buildOf p files scripts = namedBuild args ∧ s.name = file) ↔
        NothingLaunches p files scripts := by
  have hnone : launchOf p files jvmArgs scripts = none ↔ NothingLaunches p files scripts :=
    launchOf_eq_none
  rw [← hnone]
  constructor
  · intro h
    cases hlaunch : launchOf p files jvmArgs scripts with
    | none => rfl
    | some launch =>
      obtain ⟨args, file⟩ := launch
      have hname := (h args file hlaunch).2
      rcases file_of_launchOf hlaunch with ⟨s', hmem, rfl⟩ | rfl
      · exact absurd (name_injective hname ▸ hmem) hnotin
      · exact absurd hname (name_ne_argfileName s)
  · intro h args file hlaunch
    rw [h] at hlaunch
    cases hlaunch

theorem firstDecides_iff (hown : ∀ t ∈ jvmArgs, argfileBuild t = none)
    {scripts : List LaunchScript} (hnodup : scripts.Nodup) :
    (∀ args file, launchOf p files jvmArgs scripts = some (args, file) →
      buildOf p files scripts = namedBuild args ∧ shownOf p files scripts = file) ↔
        FirstDecides p files scripts := by
  induction scripts with
  | nil =>
    simp only [FirstDecides, iff_true]
    intro args file h
    by_cases hnil : argfileTokens p files = []
    · simp only [launchOf, List.findSome?_nil, hnil, if_true, reduceCtorEq] at h
    · simp only [launchOf, List.findSome?_nil, hnil, if_false, Option.some.injEq] at h
      cases h
      refine ⟨?_, shown_of_argfile hnil⟩
      rw [namedBuild_spliceJVMArgs hown, ← build_of_argfile]
      rfl
  | cons s scripts ih =>
    obtain ⟨hnotin, hnodup⟩ := List.nodup_cons.1 hnodup
    cases hs : files.script s with
    | none =>
      have hlaunch : launchOf p files jvmArgs (s :: scripts) = launchOf p files jvmArgs scripts := by
        simp only [launchOf, List.findSome?_cons, hs, Option.bind_none, Option.map_none]
      have hbuild : buildOf p files (s :: scripts) = buildOf p files scripts := by
        simp only [buildOf, List.findSome?_cons, hs, Option.bind_none]
      have hshown : shownOf p files (s :: scripts) = shownOf p files scripts := by
        simp only [shownOf, List.find?_cons, hs, Option.isSome_none]
      rw [hlaunch, hbuild, hshown, ih hnodup]
      simp only [FirstDecides, hs]
    | some f =>
      have hshown : shownOf p files (s :: scripts) = s.name := by
        simp only [shownOf, List.find?_cons, hs, Option.isSome_some]
      cases hf : parseLaunchScript f with
      | none =>
        have hlaunch : launchOf p files jvmArgs (s :: scripts) =
            launchOf p files jvmArgs scripts := by
          simp only [launchOf, List.findSome?_cons, hs, Option.bind_some, hf, Option.map_none]
        have hbuild : buildOf p files (s :: scripts) = buildOf p files scripts := by
          simp only [buildOf, List.findSome?_cons, hs, Option.bind_some, hf, Option.bind_none]
        rw [hlaunch, hbuild, hshown, nothingLaunches_iff hnotin]
        simp only [FirstDecides, hs, hf]
      | some tokens =>
        have hlaunch : launchOf p files jvmArgs (s :: scripts) =
            some (spliceJVMArgs tokens jvmArgs, s.name) := by
          simp only [launchOf, List.findSome?_cons, hs, Option.bind_some, hf, Option.map_some]
        simp only [FirstDecides, hs, hf, hlaunch, hshown, Option.some.injEq, Prod.mk.injEq, and_imp,
          forall_apply_eq_imp_iff, forall_eq', and_true, namedBuild_spliceJVMArgs hown]
        cases hnamed : loaderVersionFromTokens tokens with
        | some v =>
          have hbuild : buildOf p files (s :: scripts) = v := by
            simp only [buildOf, List.findSome?_cons, hs, Option.bind_some, hf, hnamed,
              Option.some_or, Option.getD_some]
          simp only [hbuild, Option.getD_some, reduceCtorEq, false_implies, and_true]
        | none =>
          have hbuild : buildOf p files (s :: scripts) = buildOf p files scripts := by
            simp only [buildOf, List.findSome?_cons, hs, Option.bind_some, hf, hnamed]
          simp only [hbuild, namedBuild_of_none hnamed, buildOf_eq_empty, Option.getD_none, true_and,
            true_implies]

/-! ## Every launch -/

/-- The directory a launch is read from, unless it is from a jar. -/
def launchDirectory (p : Platform) (d : Disk) (jarPath workingDir : String) : Option LaunchFiles :=
  let jarPath := trimSpace jarPath
  let dir := trimSpace workingDir
  let dir := if isLaunchScript jarPath ∧ dir = "" then p.dir jarPath else dir
  if isLaunchScript jarPath = false ∧ isJar jarPath ∧ d.jarExists jarPath then none
  else if dir = "" then none
  else some (d.files dir)

theorem nodup_launchScriptNames (p : Platform) : (launchScriptNames p).Nodup := by
  unfold launchScriptNames
  split <;> decide

/-- The readers of a directory agree when the first script there is decides. -/
theorem readers_of_directory (hown : ∀ t ∈ jvmArgs, argfileBuild t = none) (dir : String) :
    (∀ args file, scriptLaunchArgs p dir files jvmArgs = .ok (args, file) →
      (detectFiles p files).1 = namedBuild args ∧ describeFiles p files = file) ↔
        FirstDecides p files (launchScriptNames p) := by
  rw [← firstDecides_iff hown (nodup_launchScriptNames p), buildOf_eq_detectFiles]
  simp only [launchOf_eq_scriptLaunchArgs dir]
  rfl

/-- A launch from a jar names no build, and all readers know it. -/
theorem namedBuild_of_jar (hown : ∀ t ∈ jvmArgs, argfileBuild t = none) {jar : String}
    (hjar : isJar jar = true) : namedBuild (jvmArgs ++ ["-jar", jar, "--nogui"]) = "" := by
  have hnone : (jvmArgs ++ ["-jar", jar, "--nogui"]).findSome? argfileBuild = none := by
    rw [List.findSome?_eq_none_iff]
    intro t ht
    rcases List.mem_append.1 ht with hjvm | hrest
    · exact hown t hjvm
    · simp only [List.mem_cons, List.not_mem_nil, or_false] at hrest
      rcases hrest with rfl | rfl | rfl
      · decide
      · exact argfileBuild_of_isJar hjar
      · decide
  rw [namedBuild, hnone]
  rfl

/-- The build and the file shown are those of the launch, whatever the directory holds, if and only
if the server starts from its jar or the first script there is decides. -/
theorem readersAgree_iff (p : Platform) (d : Disk) (jarPath workingDir : String)
    (hown : ∀ t ∈ jvmArgs, argfileBuild t = none) :
    ReadersAgree p d jarPath workingDir jvmArgs ↔
      ∀ files, launchDirectory p d jarPath workingDir = some files →
        FirstDecides p files (launchScriptNames p) := by
  unfold ReadersAgree resolveLaunchFrom detectLoaderVersion describeLaunch launchDirectory
  simp only
  generalize trimSpace jarPath = jar
  generalize (if isLaunchScript jar = true ∧ trimSpace workingDir = "" then p.dir jar
    else trimSpace workingDir) = dir
  by_cases hjar : isLaunchScript jar = false ∧ isJar jar = true ∧ d.jarExists jar = true
  · simp only [if_pos hjar, reduceCtorEq, false_implies, implies_true, iff_true]
    intro args file h
    split at h
    · cases h
    · cases h
      exact ⟨(namedBuild_of_jar hown hjar.2.1).symm, rfl⟩
  · by_cases hdir : dir = ""
    · simp only [if_neg hjar, if_pos hdir, reduceCtorEq, false_implies, implies_true]
    · simp only [if_neg hjar, if_neg hdir, Option.some.injEq, forall_eq']
      rw [← readers_of_directory hown dir]
      cases scriptLaunchArgs p dir (d.files dir) jvmArgs with
      | ok launch => simp only [Except.ok.injEq]
      | error m =>
        simp only [reduceCtorEq, false_implies, implies_true, iff_true]
        intro args file h
        split at h <;> cases h

/-! ## A script without a java line -/

/-- Unix, in the directory of the server. -/
def unix : Platform where
  windows := false
  dir _ := "."

/-- A directory with the given scripts and one build of NeoForge under `libraries/`. -/
def directory (runSh runBat : Option TextFile) : Disk where
  jarExists _ := false
  installer _ := none
  files _ :=
    { script := fun s => match s with
        | .runSh => runSh
        | .runBat => runBat
      userJvmArgs := none
      argfiles := fun loader => match loader with
        | .neoforge => [⟨"21.1.72", some 0⟩]
        | .forge => [] }

/-- The launcher of a NeoForge install. -/
def neoforgeScript : TextFile :=
  .text "#!/usr/bin/env sh\njava @libraries/net/neoforged/neoforge/21.1.72/unix_args.txt \"$@\"\n"

/-- On a NeoForge install the readers agree. -/
theorem readersAgree_neoforge :
    ReadersAgree unix (directory (some neoforgeScript) none) "" "srv" ["-Xmx2G"] := by
  refine (readersAgree_iff unix (directory (some neoforgeScript) none) "" "srv"
    (by decide +kernel)).2 fun files hfiles => ?_
  have hsome : launchDirectory unix (directory (some neoforgeScript) none) "" "srv" =
      some ((directory (some neoforgeScript) none).files "srv") := by
    unfold launchDirectory
    rw [if_neg (by decide +kernel), if_neg (by decide +kernel)]
    rfl
  obtain rfl := Option.some.inj (hsome.symm.trans hfiles)
  have hline : parseLaunchScript neoforgeScript =
      some ["@libraries/net/neoforged/neoforge/21.1.72/unix_args.txt"] := by
    decide +kernel
  have hscript : ((directory (some neoforgeScript) none).files "srv").script .runSh =
      some neoforgeScript := rfl
  rw [show launchScriptNames unix = [.runSh, .runBat] from rfl]
  simp only [FirstDecides, hscript, hline]
  exact ⟨by decide +kernel, fun hnone => absurd hnone (by decide +kernel)⟩

/-- A `run.sh` that starts another program is shown, and java is started with an argfile; a
`run.sh` that starts a jar is launched, and the build of the argfile is shown. -/
theorem not_readersAgree :
    ¬ ReadersAgree unix (directory (some (.text "./start.sh\n")) none) "" "srv" [] ∧
      ¬ ReadersAgree unix (directory (some (.text "java -jar paper.jar\n")) none) "" "srv" [] := by
  have hargs : ∀ f args file, resolveLaunchFrom unix (directory (some f) none) "" "srv" [] =
      .ok (args, file) → ReadersAgree unix (directory (some f) none) "" "srv" [] →
        (detectLoaderVersion unix (directory (some f) none) "" "srv").1 = namedBuild args ∧
          describeLaunch unix (directory (some f) none) "" "srv" = file :=
    fun f args file h hagree => hagree args file h
  constructor
  · intro h
    have hfile := (hargs _ ["@libraries/net/neoforged/neoforge/21.1.72/unix_args.txt", "--nogui"]
      "unix_args.txt" (by decide +kernel) h).2
    exact absurd hfile (by decide +kernel)
  · intro h
    have hbuild := (hargs _ ["-jar", "paper.jar", "--nogui"] "run.sh" (by decide +kernel) h).1
    exact absurd hbuild (by decide +kernel)

end Konnekt.Server

import Konnekt.Server.Launch

/-!
# Where the JVM arguments land on a launcher's line

The line of a launcher script has options of the JVM, then the start of the program, then
the program's own arguments. The JVM arguments of a server are spliced in at the last
argfile of the line, which is the start of the program on the lines an installer writes
and need not be on others.
-/

namespace Konnekt.Server

open Go

/-! ## The parts of a line -/

/-- How a line names its program: an argfile with the main class in it, or a jar. -/
inductive ProgramStart where
  | argfile (name : String)
  | jar (path : String)
  deriving DecidableEq, Repr

def ProgramStart.tokens : ProgramStart → List String
  | argfile name => ["@" ++ name]
  | jar path => ["-jar", path]

/-- The tokens behind `java` by what they are for. -/
structure LaunchLine where
  /-- Options of the JVM and argfiles of such options. -/
  options : List String
  start : ProgramStart
  /-- What the program itself is given. -/
  arguments : List String
  deriving DecidableEq, Repr

namespace LaunchLine

/-- The start of the program and all that follows it. -/
def program (l : LaunchLine) : List String := l.start.tokens ++ l.arguments

def tokens (l : LaunchLine) : List String := l.options ++ l.program

/-- The JVM arguments stand behind the options and in front of the program, and a flag is
added at the end only where the line has none. -/
def Reached (l : LaunchLine) (jvmArgs out : List String) : Prop :=
  ∃ added, out = l.options ++ jvmArgs ++ l.program ++ added ∧
    (added = [] ∨ added = ["--nogui"] ∧ hasNoGui l.tokens = false)

/-- The program starts with the last argfile of the line. -/
def StartsLast (l : LaunchLine) : Prop :=
  (∃ name, l.start = .argfile name) ∧ ∀ t ∈ l.arguments, isArgfile t = false

end LaunchLine

/-- The first of these tokens is the last argfile among them. -/
def FromLastArgfile : List String → Prop
  | [] => False
  | t :: ts => isArgfile t = true ∧ ∀ u ∈ ts, isArgfile u = false

/-- Tokens between the start of the program and the last argfile of the line; the end of
the line stands in for an argfile that is not there. -/
inductive LaunchLine.Passed (l : LaunchLine) : List String → Prop
  | later (passed rest : List String) (h : l.program = passed ++ rest)
      (hlast : FromLastArgfile rest) : Passed l passed
  | none (h : ∀ t ∈ l.tokens, isArgfile t = false) : Passed l l.program
  | earlier (rest passed : List String) (h : l.options = rest ++ passed)
      (hlast : FromLastArgfile (passed ++ l.program)) : Passed l passed

/-! ## Splicing -/

/-- Tokens have a last argfile, or none. -/
theorem exists_fromLastArgfile (ts : List String) : (∀ t ∈ ts, isArgfile t = false) ∨
    ∃ before rest, ts = before ++ rest ∧ FromLastArgfile rest := by
  induction ts with
  | nil => exact .inl fun t ht => absurd ht List.not_mem_nil
  | cons t ts ih =>
    rcases ih with hnone | ⟨before, rest, rfl, hlast⟩
    · cases ht : isArgfile t with
      | true => exact .inr ⟨[], t :: ts, rfl, ht, hnone⟩
      | false => exact .inl (List.forall_mem_cons.2 ⟨ht, hnone⟩)
    · exact .inr ⟨t :: before, rest, rfl, hlast⟩

theorem findIdx?_reverse_of_last {before rest : List String} (h : FromLastArgfile rest) :
    (before ++ rest).reverse.findIdx? isArgfile = some (rest.length - 1) := by
  cases rest with
  | nil => exact h.elim
  | cons t ts =>
    have hnone : ts.reverse.findIdx? isArgfile = none := by
      rw [List.findIdx?_eq_none_iff]
      intro u hu
      exact h.2 u (List.mem_reverse.1 hu)
    rw [List.reverse_append, List.reverse_cons, List.append_assoc, List.findIdx?_append, hnone]
    simp [List.findIdx?_cons, h.1]

/-- The flag a launch ends with, unless it is there already. -/
def addedNoGui (out : List String) : List String := if hasNoGui out then [] else ["--nogui"]

theorem spliceJVMArgs_of_last {before rest jvmArgs : List String} (h : FromLastArgfile rest) :
    spliceJVMArgs (before ++ rest) jvmArgs =
      before ++ jvmArgs ++ rest ++ addedNoGui (before ++ jvmArgs ++ rest) := by
  have hpos : 0 < rest.length := by
    cases rest with
    | nil => exact h.elim
    | cons t ts => exact Nat.succ_pos _
  have hplace : (before ++ rest).length - 1 - (rest.length - 1) = before.length := by
    rw [List.length_append]
    omega
  simp only [spliceJVMArgs, findIdx?_reverse_of_last h, hplace, List.take_left, List.drop_left,
    addedNoGui]
  split <;> simp

theorem spliceJVMArgs_of_none {tokens jvmArgs : List String}
    (h : ∀ t ∈ tokens, isArgfile t = false) : spliceJVMArgs tokens jvmArgs =
      tokens ++ jvmArgs ++ addedNoGui (tokens ++ jvmArgs) := by
  have hnone : tokens.reverse.findIdx? isArgfile = none := by
    rw [List.findIdx?_eq_none_iff]
    intro u hu
    exact h u (List.mem_reverse.1 hu)
  simp only [spliceJVMArgs, hnone, List.take_length, List.drop_length, List.append_nil, addedNoGui]
  split <;> simp

theorem hasNoGui_append (a b : List String) : hasNoGui (a ++ b) = (hasNoGui a || hasNoGui b) :=
  List.any_append

namespace LaunchLine

variable {l : LaunchLine} {jvmArgs passed : List String}

/-- What is spliced and what is wanted differ in the order of the JVM arguments and the
tokens passed over. -/
theorem Passed.splice (h : l.Passed passed) (jvmArgs : List String) :
    ∃ before after x y, spliceJVMArgs l.tokens jvmArgs =
        before ++ x ++ after ++ addedNoGui (l.tokens ++ jvmArgs) ∧
      l.options ++ jvmArgs ++ l.program = before ++ y ++ after ∧
      x.length = y.length ∧ (x = y ↔ jvmArgs ++ passed = passed ++ jvmArgs) := by
  have hadded : ∀ out, hasNoGui out = hasNoGui (l.tokens ++ jvmArgs) →
      addedNoGui out = addedNoGui (l.tokens ++ jvmArgs) := by
    intro out hout
    rw [addedNoGui, hout, addedNoGui]
  have hlength : (passed ++ jvmArgs).length = (jvmArgs ++ passed).length := by
    rw [List.length_append, List.length_append, Nat.add_comm]
  cases h with
  | later _ rest hprogram hlast =>
    refine ⟨l.options, rest, _, _, ?_, ?_, hlength, eq_comm⟩
    · have htokens : l.tokens = (l.options ++ passed) ++ rest := by simp [tokens, hprogram]
      rw [htokens, spliceJVMArgs_of_last hlast, hadded]
      · simp [htokens]
      · simp only [htokens, hasNoGui_append, Bool.or_comm, Bool.or_left_comm]
    · simp [hprogram]
  | none hnone =>
    refine ⟨l.options, [], _, _, ?_, ?_, hlength, eq_comm⟩
    · rw [spliceJVMArgs_of_none hnone]
      simp [tokens]
    · simp
  | earlier rest _ hoptions hlast =>
    refine ⟨rest, l.program, _, _, ?_, ?_, hlength.symm, Iff.rfl⟩
    · have htokens : l.tokens = rest ++ (passed ++ l.program) := by simp [tokens, hoptions]
      rw [htokens, spliceJVMArgs_of_last hlast, hadded]
      · simp [htokens]
      · simp only [htokens, hasNoGui_append, Bool.or_assoc, Bool.or_comm, Bool.or_left_comm]
    · simp [hoptions]

theorem exists_passed (l : LaunchLine) : ∃ passed, l.Passed passed := by
  rcases exists_fromLastArgfile l.program with hprogram | ⟨passed, rest, hprogram, hlast⟩
  · rcases exists_fromLastArgfile l.options with hoptions | ⟨rest, passed, hoptions, hlast⟩
    · exact ⟨_, .none fun t ht => (List.mem_append.1 ht).elim (hoptions t) (hprogram t)⟩
    · refine ⟨passed, .earlier rest passed hoptions ?_⟩
      cases passed with
      | nil => exact hlast.elim
      | cons t ts =>
        refine ⟨hlast.1, fun u hu => ?_⟩
        exact (List.mem_append.1 hu).elim (hlast.2 u) (hprogram u)
  · exact ⟨passed, .later passed rest hprogram hlast⟩

theorem isArgfile_at (name : String) : isArgfile ("@" ++ name) = true := by
  rw [isArgfile, cutPrefix_append]
  rfl

/-- No token is passed over where the program starts with the last argfile. -/
theorem StartsLast.passes (h : l.StartsLast) : l.Passed [] := by
  obtain ⟨⟨name, hstart⟩, harguments⟩ := h
  refine .later [] l.program rfl ?_
  rw [program, hstart]
  exact ⟨isArgfile_at name, harguments⟩

/-- The arguments reach the JVM exactly if the tokens passed over make no difference. -/
theorem Passed.reached_iff (h : l.Passed passed) :
    l.Reached jvmArgs (spliceJVMArgs l.tokens jvmArgs) ↔ jvmArgs ++ passed = passed ++ jvmArgs := by
  obtain ⟨before, after, x, y, hout, hwant, hlength, hcomm⟩ := h.splice jvmArgs
  rw [← hcomm, Reached, hwant, hout]
  constructor
  · rintro ⟨added, hsame, -⟩
    simp only [List.append_assoc] at hsame
    exact (List.append_inj (List.append_cancel_left hsame) hlength).1
  · rintro rfl
    refine ⟨_, rfl, ?_⟩
    unfold addedNoGui
    split
    · exact .inl rfl
    · next hno =>
      rw [hasNoGui_append, Bool.or_eq_true, not_or, Bool.not_eq_true] at hno
      exact .inr ⟨rfl, hno.1⟩

/-- On a line that a script of the directory is read as, the JVM arguments reach the JVM
exactly if the program starts with the last argfile or the tokens in between make no
difference. -/
theorem scriptLaunchArgs_reached_iff {p : Platform} {dir : String} {files : LaunchFiles}
    {s : LaunchScript} (l : LaunchLine) (jvmArgs : List String)
    (hparsed : ((launchScriptNames p).findSome? fun s =>
      ((files.script s).bind parseLaunchScript).map fun tokens => (s, tokens)) =
        some (s, l.tokens)) :
    (∃ out, scriptLaunchArgs p dir files jvmArgs = .ok (out, s.name) ∧ l.Reached jvmArgs out) ↔
      l.StartsLast ∨ ∃ passed, l.Passed passed ∧ jvmArgs ++ passed = passed ++ jvmArgs := by
  simp only [scriptLaunchArgs, hparsed, Except.ok.injEq, Prod.mk.injEq, and_true,
    exists_eq_left']
  constructor
  · intro hreached
    obtain ⟨passed, hpassed⟩ := l.exists_passed
    exact .inr ⟨passed, hpassed, hpassed.reached_iff.1 hreached⟩
  · rintro (hlast | ⟨passed, hpassed, hcomm⟩)
    · exact hlast.passes.reached_iff.2 (by simp)
    · exact hpassed.reached_iff.2 hcomm

end LaunchLine

/-! ## A script of each kind -/

/-- A directory with a script for the shell only. -/
def shellScript (line : String) : LaunchFiles where
  script
    | .runSh => some (.text ("#!/usr/bin/env sh\n" ++ line ++ "\n"))
    | .runBat => none
  userJvmArgs := none
  argfiles _ := []

def unixPlatform : Platform := ⟨false, fun _ => "."⟩

def installerLine : LaunchLine where
  options := ["@user_jvm_args.txt"]
  start := .argfile "libraries/net/neoforged/neoforge/21.1.72/unix_args.txt"
  arguments := []

def jarLine : LaunchLine where
  options := ["-Xmx4G"]
  start := .jar "server.jar"
  arguments := ["nogui"]

theorem installerLine_reached : ∃ out, scriptLaunchArgs unixPlatform "/srv" (shellScript
    "java @user_jvm_args.txt @libraries/net/neoforged/neoforge/21.1.72/unix_args.txt \"$@\"")
      ["-Xmx6G"] = .ok (out, LaunchScript.runSh.name) ∧ installerLine.Reached ["-Xmx6G"] out := by
  have hparsed : ((launchScriptNames unixPlatform).findSome? fun s => (((shellScript
      "java @user_jvm_args.txt @libraries/net/neoforged/neoforge/21.1.72/unix_args.txt \"$@\""
        ).script s).bind parseLaunchScript).map fun tokens => (s, tokens)) =
      some (.runSh, installerLine.tokens) := by
    decide +kernel
  exact (installerLine.scriptLaunchArgs_reached_iff ["-Xmx6G"] hparsed).2
    (.inl ⟨⟨_, rfl⟩, by decide⟩)

/-- Behind a jar the arguments are the program's, and the limit of the script stays. -/
theorem not_jarLine_reached : ¬ ∃ out, scriptLaunchArgs unixPlatform "/srv" (shellScript
    "java -Xmx4G -jar server.jar nogui") ["-Xmx6G"] = .ok (out, LaunchScript.runSh.name) ∧
      jarLine.Reached ["-Xmx6G"] out := by
  rintro ⟨out, hout, added, hreached, -⟩
  have hargs : scriptLaunchArgs unixPlatform "/srv" (shellScript
      "java -Xmx4G -jar server.jar nogui") ["-Xmx6G"] =
        .ok (["-Xmx4G", "-jar", "server.jar", "nogui", "-Xmx6G"], "run.sh") := by
    decide +kernel
  rw [hargs] at hout
  cases hout
  have hsecond : some "-jar" = some "-Xmx6G" := congrArg (fun ts : List String => ts[1]?) hreached
  exact absurd hsecond (by decide)

end Konnekt.Server

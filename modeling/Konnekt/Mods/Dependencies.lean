import Konnekt.Run.FirstVisit
import Mathlib.Data.Finset.Union

/-!
# The dependencies of a version

A version's dependencies are looked up breadth first. A project is looked up by the first
entry that names it, with the version this entry asks for, and its own dependencies are
followed if that entry is a required one.
-/

namespace Konnekt.Modrinth

/-! ## Versions and their provider -/

/-- The kinds of a dependency. -/
inductive DependencyType where
  | required
  | optional
  | incompatible
  | embedded
  deriving DecidableEq, Repr

/-- `models.ModDependency`. -/
structure ModDependency where
  projectID : String
  /-- Empty if no version is pinned. -/
  versionID : String
  dependencyType : DependencyType
  deriving DecidableEq, Repr

/-- `models.ModVersion`, with the fields that are read of it. -/
structure ModVersion where
  id : String
  projectID : String
  dependencies : List ModDependency
  deriving DecidableEq, Repr, Inhabited

/-- `models.ResolvedDependency`. -/
structure ResolvedDependency where
  projectID : String
  projectTitle : String
  version : ModVersion
  required : Bool
  alreadyInstalled : Bool
  deriving DecidableEq, Repr

/-- What the service of the provider answers. -/
structure Provider where
  getVersion : String → Except String ModVersion
  /-- The builds of a project for a version of the game and a loader. -/
  getVersions : String → String → String → Except String (List ModVersion)
  getAllVersions : String → Except String (List ModVersion)
  /-- The title of a project. -/
  getProject : String → Except String String

section

variable (provider : Provider) (mcVersion loader : String)

/-- `dependencyVersion`. -/
def dependencyVersion (dep : ModDependency) : Except String ModVersion :=
  if dep.versionID ≠ "" then
    match provider.getVersion dep.versionID with
    | .ok v => .ok v
    | .error err => .error ("fetching dep version " ++ dep.versionID ++ ": " ++ err)
  else
    match provider.getVersions dep.projectID mcVersion loader with
    | .ok (v :: _) => .ok v
    | _ =>
      match provider.getAllVersions dep.projectID with
      | .ok (v :: _) => .ok v
      | _ => .error ("no version found for dependency " ++ dep.projectID)

/-- `describeDependency`. -/
def describeDependency (projectID cause : String) : String :=
  match provider.getProject projectID with
  | .ok title => if title = "" then cause else title ++ ": " ++ cause
  | .error _ => cause

/-- A resolution in progress. -/
structure Resolution where
  seen : List String
  queue : List String
  result : List ResolvedDependency

variable (installed : String → Bool)

/-- What is listed for an entry that resolves to a version. -/
def listed (dep : ModDependency) (version : ModVersion) : ResolvedDependency where
  projectID := dep.projectID
  projectTitle := match provider.getProject dep.projectID with
    | .ok title => title
    | .error _ => dep.projectID
  version := version
  required := dep.dependencyType = .required
  alreadyInstalled := installed dep.projectID

/-- The loop body for one dependency of a version. -/
def resolveEntry (st : Resolution) (dep : ModDependency) : Except String Resolution :=
  if dep.dependencyType = .incompatible ∨ dep.dependencyType = .embedded then .ok st
  else if dep.projectID ∈ st.seen then .ok st
  else
    let st := { st with seen := dep.projectID :: st.seen }
    match dependencyVersion provider mcVersion loader dep with
    | .error err =>
      if dep.dependencyType = .required && !installed dep.projectID then
        .error (describeDependency provider dep.projectID err)
      else .ok st
    | .ok version =>
      .ok { st with
        result := st.result ++ [listed provider installed dep version]
        queue := if dep.dependencyType = .required && version.id ≠ "" then
          st.queue ++ [version.id] else st.queue }

/-- The loop over the queue, for so many turns. -/
def resolveLoop : Nat → Resolution → Option (Except String (List ResolvedDependency))
  | _, ⟨_, [], result⟩ => some (.ok result)
  | 0, ⟨_, _ :: _, _⟩ => none
  | n + 1, ⟨seen, versionID :: queue, result⟩ =>
    match provider.getVersion versionID with
    | .error err => some (.error ("fetching version " ++ versionID ++ ": " ++ err))
    | .ok v =>
      match v.dependencies.foldlM (resolveEntry provider mcVersion loader installed)
        ⟨seen, queue, result⟩ with
      | .error err => some (.error err)
      | .ok st => resolveLoop n st

/-- `ResolveDependencies`, for so many turns. -/
def resolveDependencies (n : Nat) (versionID : String) :
    Option (Except String (List ResolvedDependency)) :=
  resolveLoop provider mcVersion loader installed n
    ⟨if versionID ≠ "" then [versionID] else [], [versionID], []⟩

/-! ## The graph -/

/-- The entries of a version that are neither incompatible nor embedded. -/
def entries (versionID : String) : List ModDependency :=
  match provider.getVersion versionID with
  | .ok v => v.dependencies.filter fun dep =>
      dep.dependencyType ≠ .incompatible ∧ dep.dependencyType ≠ .embedded
  | .error _ => []

/-- The version a required entry leads to. -/
def requires (dep : ModDependency) : Option String :=
  if dep.dependencyType = .required then
    match dependencyVersion provider mcVersion loader dep with
    | .ok v => if v.id = "" then none else some v.id
    | .error _ => none
  else none

/-- Versions that required entries lead to, one after the other. -/
def Reaches : String → String → Prop :=
  FirstVisit.Reaches (entries provider) (requires provider mcVersion loader)

/-- An entry of the root or of a version it requires. -/
def IsEntry (root : String) (dep : ModDependency) : Prop :=
  ∃ id, Reaches provider mcVersion loader root id ∧ dep ∈ entries provider id

/-- The project is reachable from the root through required entries. -/
def RequiredFrom (root project : String) : Prop :=
  ∃ dep, IsEntry provider mcVersion loader root dep ∧ dep.dependencyType = .required ∧
    dep.projectID = project

/-- The project is an optional entry of the root or of a version it requires. -/
def OptionalFrom (root project : String) : Prop :=
  ∃ dep, IsEntry provider mcVersion loader root dep ∧ dep.dependencyType = .optional ∧
    dep.projectID = project

/-- The project a version is of. -/
def projectOf (versionID : String) : String :=
  match provider.getVersion versionID with
  | .ok v => v.projectID
  | .error _ => ""

/-- The graph below a version is finite and every lookup in it succeeds. -/
structure Resolvable (root : String) : Prop where
  named : root ≠ ""
  finite : {id | Reaches provider mcVersion loader root id}.Finite
  found : ∀ id, Reaches provider mcVersion loader root id → ∃ v, provider.getVersion id = .ok v
  resolves : ∀ dep, IsEntry provider mcVersion loader root dep →
    ∃ v, dependencyVersion provider mcVersion loader dep = .ok v ∧ v.id ≠ ""

/-- A list is the required closure of a version, with the optional entries on its way. -/
structure IsClosure (root : String) (result : List ResolvedDependency) : Prop where
  nodup : (result.map (·.projectID)).Nodup
  own : ∀ r ∈ result, r.projectID ≠ projectOf provider root
  required : ∀ project ≠ projectOf provider root,
    (∃ r ∈ result, r.projectID = project ∧ r.required = true) ↔
      RequiredFrom provider mcVersion loader root project
  optional : ∀ project ≠ projectOf provider root,
    (∃ r ∈ result, r.projectID = project ∧ r.required = false) ↔
      OptionalFrom provider mcVersion loader root project ∧
        ¬ RequiredFrom provider mcVersion loader root project

/-- The entries on the way down, as often as they come up: so many levels, breadth first. -/
def levels (root : String) : Nat → List ModDependency :=
  FirstVisit.levels (entries provider) (requires provider mcVersion loader) root

/-- The first entry of each project within so many levels, if no others are followed. -/
def firstEntries (root : String) : Nat → List ModDependency :=
  FirstVisit.firstLevels (entries provider) ModDependency.projectID
    (requires provider mcVersion loader) [root] root

/-- An entry of the root or of the version a first entry leads to. -/
def IsMet (root : String) (dep : ModDependency) : Prop :=
  ∃ n, dep ∈ (root :: (firstEntries provider mcVersion loader root n).filterMap
    (requires provider mcVersion loader)).flatMap (entries provider)

/-- First entries lead to all that is needed: the root's project is not among the entries that are
met, and no other project with the id of the root version; the first entry of a project of which a
required one is met is required; and versions that are not followed name no further projects. -/
structure FirstEntriesSuffice (root : String) : Prop where
  own : projectOf provider root = root ∨ ∀ dep, IsMet provider mcVersion loader root dep →
    dep.projectID ≠ projectOf provider root
  ids : ∀ dep, IsMet provider mcVersion loader root dep → dep.projectID = root →
    projectOf provider root = root
  first : ∀ dep, IsMet provider mcVersion loader root dep →
    dep.projectID ≠ projectOf provider root → dep.dependencyType = .required →
    ∀ n, ∀ first ∈ firstEntries provider mcVersion loader root n,
      first.projectID = dep.projectID → first.dependencyType = .required
  pins : ∀ dep, IsEntry provider mcVersion loader root dep →
    dep.projectID ≠ projectOf provider root →
    ∃ dep', IsMet provider mcVersion loader root dep' ∧ dep'.projectID = dep.projectID ∧
      (dep.dependencyType = .required → dep'.dependencyType = .required)

/-- Required entries of one project ask for one version, and those of the root's project for it. -/
structure OneVersion (root : String) : Prop where
  same : ∀ dep dep', IsEntry provider mcVersion loader root dep →
    IsEntry provider mcVersion loader root dep' → dep.dependencyType = .required →
    dep'.dependencyType = .required → dep.projectID = dep'.projectID →
    requires provider mcVersion loader dep = requires provider mcVersion loader dep'
  own : ∀ dep, IsEntry provider mcVersion loader root dep → dep.dependencyType = .required →
    dep.projectID = projectOf provider root → requires provider mcVersion loader dep = some root

/-- The root's project is not asked for, no other project has the id of the root version, and the
first entry of each required project is a required one. -/
structure RequiredFirst (root : String) : Prop where
  own : projectOf provider root = root ∨ ∀ dep, IsEntry provider mcVersion loader root dep →
    dep.projectID ≠ projectOf provider root
  ids : ∀ dep, IsEntry provider mcVersion loader root dep → dep.projectID = root →
    projectOf provider root = root
  first : ∀ project ≠ projectOf provider root, RequiredFrom provider mcVersion loader root project →
    ∀ n dep, (levels provider mcVersion loader root n).find? (·.projectID = project) = some dep →
      dep.dependencyType = .required

end

/-! ## The code's walk -/

section

variable {provider : Provider} {mcVersion loader : String} {installed : String → Bool}

variable (provider mcVersion loader installed) in
/-- What is listed for an entry, with the version it resolves to. -/
def row (dep : ModDependency) : ResolvedDependency :=
  listed provider installed dep ((dependencyVersion provider mcVersion loader dep).toOption.getD
    default)

/-- An entry of a project that has not been seen is listed, and followed if it is required. -/
theorem resolveEntry_eq {st : Resolution} {dep : ModDependency} {v : ModVersion}
    (hkind : dep.dependencyType ≠ .incompatible ∧ dep.dependencyType ≠ .embedded)
    (hversion : dependencyVersion provider mcVersion loader dep = .ok v) (hid : v.id ≠ "") :
    resolveEntry provider mcVersion loader installed st dep = .ok
      (if dep.projectID ∈ st.seen then st
        else ⟨dep.projectID :: st.seen,
          st.queue ++ (requires provider mcVersion loader dep).toList,
          st.result ++ [row provider mcVersion loader installed dep]⟩) := by
  rw [resolveEntry, if_neg (by simp [hkind])]
  split
  · rfl
  · by_cases hrequired : dep.dependencyType = .required
    · simp [hversion, hid, hrequired, requires, row, Except.toOption]
    · simp [hversion, hrequired, requires, row, Except.toOption]

/-- The entries of a version, one after the other. -/
theorem foldlM_resolveEntry {deps : List ModDependency} (hversion : ∀ dep ∈ deps,
      dep.dependencyType ≠ .incompatible ∧ dep.dependencyType ≠ .embedded →
        ∃ v, dependencyVersion provider mcVersion loader dep = .ok v ∧ v.id ≠ "")
    {seen : List String} (st : Resolution) (hseen : ∀ k, k ∈ st.seen ↔ k ∈ seen) :
    let new := FirstVisit.firsts ModDependency.projectID seen (deps.filter fun dep =>
      dep.dependencyType ≠ .incompatible ∧ dep.dependencyType ≠ .embedded)
    ∃ seen', (∀ k, k ∈ seen' ↔ k ∈ new.map (·.projectID) ++ seen) ∧
      deps.foldlM (resolveEntry provider mcVersion loader installed) st = .ok ⟨seen',
        st.queue ++ new.filterMap (requires provider mcVersion loader),
        st.result ++ new.map (row provider mcVersion loader installed)⟩ := by
  induction deps generalizing st seen with
  | nil => exact ⟨st.seen, hseen, by simp [FirstVisit.firsts, pure, Except.pure]⟩
  | cons dep deps ih =>
    rw [List.forall_mem_cons] at hversion
    dsimp only at ih ⊢
    rw [List.foldlM_cons]
    by_cases hkind : dep.dependencyType ≠ .incompatible ∧ dep.dependencyType ≠ .embedded
    · obtain ⟨v, hv, hid⟩ := hversion.1 hkind
      rw [resolveEntry_eq hkind hv hid, List.filter_cons_of_pos (by simpa using hkind),
        FirstVisit.firsts]
      by_cases hmem : dep.projectID ∈ seen
      · rw [if_pos hmem, if_pos ((hseen _).2 hmem)]
        exact ih hversion.2 st hseen
      · rw [if_neg hmem, if_neg fun h => hmem ((hseen _).1 h)]
        have hseen' : ∀ k, k ∈ dep.projectID :: st.seen ↔ k ∈ dep.projectID :: seen := by
          intro k
          rw [List.mem_cons, List.mem_cons, hseen]
        obtain ⟨seen', hmem', hfold⟩ := ih hversion.2 ⟨dep.projectID :: st.seen,
          st.queue ++ (requires provider mcVersion loader dep).toList,
          st.result ++ [row provider mcVersion loader installed dep]⟩ hseen'
        refine ⟨seen', fun k => ?_, ?_⟩
        · rw [hmem']
          simp only [List.map_cons, List.cons_append, List.mem_append, List.mem_cons]
          exact or_left_comm
        · refine hfold.trans ?_
          cases hnext : requires provider mcVersion loader dep with
          | none => simp [hnext]
          | some id => simp [hnext]
    · have hskip : resolveEntry provider mcVersion loader installed st dep = .ok st := by
        rw [resolveEntry, if_pos]
        rwa [not_and_or, not_not, not_not] at hkind
      rw [hskip, List.filter_cons_of_neg (by simpa using hkind)]
      exact ih hversion.2 st hseen

theorem entries_of_getVersion {id : String} {v : ModVersion} (h : provider.getVersion id = .ok v) :
    entries provider id = v.dependencies.filter fun dep =>
      dep.dependencyType ≠ .incompatible ∧ dep.dependencyType ≠ .embedded := by
  rw [entries, h]

/-- The loop lists what the walk takes. -/
theorem resolveLoop_of_walk {root : String} (h : Resolvable provider mcVersion loader root)
    {n : Nat} {st : Resolution} {seen : List String} {taken : List ModDependency}
    (hqueue : ∀ id ∈ st.queue, Reaches provider mcVersion loader root id)
    (hseen : ∀ k, k ∈ st.seen ↔ k ∈ seen)
    (hwalk : FirstVisit.walk (entries provider) ModDependency.projectID
      (requires provider mcVersion loader) n st.queue seen = some taken) :
    resolveLoop provider mcVersion loader installed n st =
      some (.ok (st.result ++ taken.map (row provider mcVersion loader installed))) := by
  induction n generalizing st seen taken with
  | zero =>
    obtain ⟨seen', queue, result⟩ := st
    cases queue with
    | nil =>
      rw [FirstVisit.walk] at hwalk
      obtain rfl := Option.some.inj hwalk
      rw [resolveLoop, List.map_nil, List.append_nil]
    | cons id queue => cases hwalk
  | succ n ih =>
    obtain ⟨seen', queue, result⟩ := st
    cases queue with
    | nil =>
      rw [FirstVisit.walk] at hwalk
      obtain rfl := Option.some.inj hwalk
      rw [resolveLoop, List.map_nil, List.append_nil]
    | cons id queue =>
      rw [FirstVisit.walk] at hwalk
      obtain ⟨later, hlater, rfl⟩ := Option.map_eq_some_iff.1 hwalk
      rw [List.forall_mem_cons] at hqueue
      obtain ⟨v, hv⟩ := h.found id hqueue.1
      have hentries := entries_of_getVersion hv
      have hresolves : ∀ dep ∈ v.dependencies,
          dep.dependencyType ≠ .incompatible ∧ dep.dependencyType ≠ .embedded →
            ∃ w, dependencyVersion provider mcVersion loader dep = .ok w ∧ w.id ≠ "" := by
        intro dep hdep hkind
        refine h.resolves dep ⟨id, hqueue.1, ?_⟩
        rw [hentries]
        exact List.mem_filter.2 ⟨hdep, by simpa using hkind⟩
      obtain ⟨seen₁, hseen₁, hfold⟩ := @foldlM_resolveEntry provider mcVersion loader installed
        v.dependencies hresolves seen ⟨seen', queue, result⟩ hseen
      rw [← hentries] at hseen₁ hfold
      rw [resolveLoop, hv]
      simp only [hfold]
      rw [@ih ⟨seen₁, _, _⟩ _ later ?_ hseen₁ hlater, List.map_append, List.append_assoc]
      rw [List.forall_mem_append]
      refine ⟨hqueue.2, fun w hw => ?_⟩
      obtain ⟨dep, hdep, hnext⟩ := List.mem_filterMap.1 hw
      have hmem := List.mem_of_find?_eq_some (FirstVisit.mem_firsts_iff.1 hdep).2
      exact .tail hqueue.1 ⟨dep, hmem, hnext⟩

/-- The resolution ends, and lists the first edges of each project. -/
theorem exists_resolveDependencies {root : String} (h : Resolvable provider mcVersion loader root) :
    ∃ n taken, (∀ m ≥ n, resolveDependencies provider mcVersion loader installed m root =
        some (.ok (taken.map (row provider mcVersion loader installed)))) ∧
      (∀ dep ∈ taken, IsEntry provider mcVersion loader root dep) ∧
      (∃ m, firstEntries provider mcVersion loader root m = taken) ∧
      taken = FirstVisit.firsts ModDependency.projectID [root]
        ((root :: taken.filterMap (requires provider mcVersion loader)).flatMap
          (entries provider)) := by
  have hstep : ∀ v w, Reaches provider mcVersion loader root v →
      FirstVisit.Follows (entries provider) (requires provider mcVersion loader) v w →
        Reaches provider mcVersion loader root w := fun v w hv hw => .tail hv hw
  have hqueue : ∀ id ∈ [root], Reaches provider mcVersion loader root id := by
    intro id hid
    rw [List.mem_singleton.1 hid]
    exact .refl
  have hkeys : ∀ v, Reaches provider mcVersion loader root v → ∀ dep ∈ entries provider v,
      dep.projectID ∈ h.finite.toFinset.biUnion fun id =>
        ((entries provider id).map (·.projectID)).toFinset := by
    intro v hv dep hdep
    rw [Finset.mem_biUnion]
    refine ⟨v, h.finite.mem_toFinset.2 hv, ?_⟩
    rw [List.mem_toFinset]
    exact List.mem_map_of_mem hdep
  obtain ⟨n, taken, hwalk⟩ : ∃ n taken, FirstVisit.walk (entries provider)
      ModDependency.projectID (requires provider mcVersion loader) n [root] [root] = some taken :=
    ⟨_, FirstVisit.exists_walk hstep hkeys hqueue le_rfl⟩
  refine ⟨n, taken, fun m hm => ?_, ?_, FirstVisit.exists_firstLevels_eq hwalk,
    FirstVisit.eq_firsts_of_walk hwalk⟩
  · rw [resolveDependencies, if_pos h.named]
    exact resolveLoop_of_walk h hqueue (fun _ => Iff.rfl) (FirstVisit.walk_of_le hm hwalk)
  · exact FirstVisit.reaches_of_walk hstep hqueue hwalk

variable {root : String}

theorem isEntry_iff_levels {dep : ModDependency} : IsEntry provider mcVersion loader root dep ↔
    ∃ n, dep ∈ levels provider mcVersion loader root n :=
  FirstVisit.exists_mem_levels_iff.symm

theorem required_of_requires {dep : ModDependency} {id : String}
    (h : requires provider mcVersion loader dep = some id) : dep.dependencyType = .required := by
  rw [requires] at h
  split at h
  · assumption
  · cases h

/-- An entry is required or optional. -/
theorem IsEntry.kind {dep : ModDependency} (h : IsEntry provider mcVersion loader root dep) :
    dep.dependencyType = .required ∨ dep.dependencyType = .optional := by
  obtain ⟨id, -, hmem⟩ := h
  rw [entries] at hmem
  split at hmem
  · have hkind := (List.mem_filter.1 hmem).2
    cases hdep : dep.dependencyType with
    | required => exact .inl rfl
    | optional => exact .inr rfl
    | incompatible => simp [hdep] at hkind
    | embedded => simp [hdep] at hkind
  · cases hmem

/-- Where the entries of a level are as they should be, they lead where the first ones do. -/
theorem leads_levels (hone : OneVersion provider mcVersion loader root)
    (hids : ∀ dep, IsEntry provider mcVersion loader root dep → dep.projectID = root →
      projectOf provider root = root) {n : Nat}
    (hown : projectOf provider root = root ∨ ∀ dep ∈ levels provider mcVersion loader root n,
      dep.projectID ≠ projectOf provider root)
    (hfirst : ∀ project ≠ projectOf provider root,
      RequiredFrom provider mcVersion loader root project → ∀ dep,
        (levels provider mcVersion loader root n).find? (·.projectID = project) = some dep →
          dep.dependencyType = .required) :
    FirstVisit.Leads ModDependency.projectID (requires provider mcVersion loader) root [root]
      (levels provider mcVersion loader root n) := by
  intro dep hdep id hid
  have hentry := isEntry_iff_levels.2 ⟨n, hdep⟩
  have hrequired := required_of_requires hid
  split
  · next hroot =>
    have hroot := List.mem_singleton.1 hroot
    have hlead := hone.own dep hentry hrequired (hroot.trans (hids dep hentry hroot).symm)
    exact Option.some.inj (hid.symm.trans hlead)
  · next hroot =>
    rw [List.mem_singleton] at hroot
    have hne : dep.projectID ≠ projectOf provider root := by
      rcases hown with h | h
      · rwa [h]
      · exact h dep hdep
    cases hfind : (levels provider mcVersion loader root n).find?
        (·.projectID = dep.projectID) with
    | none => exact absurd (List.find?_eq_none.1 hfind dep hdep) (by simp)
    | some first =>
      have hkey : first.projectID = dep.projectID := by simpa using List.find?_some hfind
      have hmem := isEntry_iff_levels.2 ⟨n, List.mem_of_find?_eq_some hfind⟩
      refine ⟨first, rfl, ?_⟩
      rw [← hid]
      apply hone.same first dep hmem hentry _ hrequired hkey
      exact hfirst _ hne ⟨dep, hentry, hrequired, rfl⟩ first hfind

section

variable {taken : List ModDependency}
  (hwalk : taken = FirstVisit.firsts ModDependency.projectID [root]
    ((root :: taken.filterMap (requires provider mcVersion loader)).flatMap (entries provider)))
include hwalk

theorem nodup_of_walk : (taken.map (·.projectID)).Nodup := by
  rw [hwalk]
  exact FirstVisit.nodup_firsts

theorem ne_root_of_walk {dep : ModDependency} (h : dep ∈ taken) : dep.projectID ≠ root := by
  rw [hwalk] at h
  have hnot := (FirstVisit.mem_firsts_iff.1 h).1
  rwa [List.mem_singleton] at hnot

theorem eq_of_walk {dep dep' : ModDependency} (h : dep ∈ taken) (h' : dep' ∈ taken)
    (hkey : dep.projectID = dep'.projectID) : dep = dep' :=
  List.inj_on_of_nodup_map (nodup_of_walk hwalk) h h' hkey

variable (hentries : ∀ dep ∈ taken, IsEntry provider mcVersion loader root dep)
include hentries

/-- A list is the closure if it has a row for each project that comes up, and the right one. -/
theorem isClosure_row_iff : IsClosure provider mcVersion loader root
      (taken.map (row provider mcVersion loader installed)) ↔
    (∀ dep ∈ taken, dep.projectID ≠ projectOf provider root) ∧
      ∀ dep, IsEntry provider mcVersion loader root dep →
        dep.projectID ≠ projectOf provider root → ∃ first ∈ taken,
          first.projectID = dep.projectID ∧
          (RequiredFrom provider mcVersion loader root dep.projectID →
            first.dependencyType = .required) := by
  constructor
  · intro h
    refine ⟨fun dep hdep => h.own _ (List.mem_map_of_mem hdep), fun dep hdep hne => ?_⟩
    by_cases hreq : RequiredFrom provider mcVersion loader root dep.projectID
    · obtain ⟨r, hr, hkey, hkind⟩ := (h.required _ hne).2 hreq
      obtain ⟨first, hmem, rfl⟩ := List.mem_map.1 hr
      exact ⟨first, hmem, hkey, fun _ => of_decide_eq_true hkind⟩
    · have hopt : dep.dependencyType = .optional :=
        hdep.kind.resolve_left fun hkind => hreq ⟨dep, hdep, hkind, rfl⟩
      obtain ⟨r, hr, hkey, -⟩ := (h.optional _ hne).2 ⟨⟨dep, hdep, hopt, rfl⟩, hreq⟩
      obtain ⟨first, hmem, rfl⟩ := List.mem_map.1 hr
      exact ⟨first, hmem, hkey, fun h => absurd h hreq⟩
  · rintro ⟨hown, hlisted⟩
    refine ⟨?_, ?_, fun project hne => ?_, fun project hne => ?_⟩
    · rw [List.map_map]
      exact nodup_of_walk hwalk
    · intro r hr
      obtain ⟨dep, hdep, rfl⟩ := List.mem_map.1 hr
      exact hown dep hdep
    · constructor
      · rintro ⟨r, hr, rfl, hkind⟩
        obtain ⟨dep, hdep, rfl⟩ := List.mem_map.1 hr
        exact ⟨dep, hentries dep hdep, of_decide_eq_true hkind, rfl⟩
      · rintro ⟨dep, hdep, hkind, rfl⟩
        obtain ⟨first, hmem, hkey, hfirst⟩ := hlisted dep hdep hne
        refine ⟨_, List.mem_map_of_mem hmem, hkey, decide_eq_true (hfirst ?_)⟩
        exact ⟨dep, hdep, hkind, rfl⟩
    · constructor
      · rintro ⟨r, hr, rfl, hkind⟩
        obtain ⟨dep, hdep, rfl⟩ := List.mem_map.1 hr
        have hnot : dep.dependencyType ≠ .required := of_decide_eq_false hkind
        refine ⟨⟨dep, hentries dep hdep, ?_, rfl⟩, fun hreq => ?_⟩
        · exact (hentries dep hdep).kind.resolve_left hnot
        · obtain ⟨first, hmem, hkey, hfirst⟩ := hlisted dep (hentries dep hdep) hne
          exact hnot (eq_of_walk hwalk hmem hdep hkey ▸ hfirst hreq)
      · rintro ⟨⟨dep, hdep, -, rfl⟩, hnot⟩
        obtain ⟨first, hmem, hkey, -⟩ := hlisted dep hdep hne
        refine ⟨_, List.mem_map_of_mem hmem, hkey, decide_eq_false fun hfirst => ?_⟩
        exact hnot ⟨first, hentries first hmem, hfirst, hkey⟩

/-! ### In general -/

theorem isEntry_of_isMet {dep : ModDependency} (h : IsMet provider mcVersion loader root dep) :
    IsEntry provider mcVersion loader root dep := by
  obtain ⟨n, hn⟩ := h
  obtain ⟨id, hid, hmem⟩ := List.mem_flatMap.1 hn
  refine ⟨id, ?_, hmem⟩
  cases List.mem_cons.1 hid with
  | inl heq => exact heq ▸ .refl
  | inr hid =>
    obtain ⟨first, hfirst, hnext⟩ := List.mem_filterMap.1 hid
    obtain ⟨parent, hparent, hmem⟩ :=
      hentries first ((FirstVisit.firstLevels_prefix hwalk n).subset hfirst)
    exact .tail hparent ⟨first, hmem, hnext⟩

omit hentries in
/-- A project that is met is taken. -/
theorem exists_taken {dep : ModDependency} (h : IsMet provider mcVersion loader root dep)
    (hne : dep.projectID ≠ root) : ∃ first ∈ taken, first.projectID = dep.projectID := by
  obtain ⟨n, hn⟩ := h
  have hroot : dep.projectID ∉ [root] := by
    rwa [List.mem_singleton]
  obtain ⟨first, hfirst, hkey⟩ := List.mem_map.1
    ((FirstVisit.mem_keys_firsts hroot).2 (List.mem_map_of_mem hn))
  exact ⟨first, (FirstVisit.firstLevels_prefix hwalk (n + 1)).subset hfirst, hkey⟩

/-- What is listed is the closure exactly where the first entries lead to all of it. -/
theorem isClosure_iff_suffice {m : Nat}
    (hlevel : firstEntries provider mcVersion loader root m = taken) :
    IsClosure provider mcVersion loader root
        (taken.map (row provider mcVersion loader installed)) ↔
      FirstEntriesSuffice provider mcVersion loader root := by
  have hmet : ∀ dep ∈ taken, IsMet provider mcVersion loader root dep := by
    intro dep hdep
    refine ⟨m, ?_⟩
    rw [hlevel]
    rw [hwalk] at hdep
    exact List.mem_of_find?_eq_some (FirstVisit.mem_firsts_iff.1 hdep).2
  rw [isClosure_row_iff hwalk hentries]
  constructor
  · rintro ⟨hown, hlisted⟩
    refine ⟨or_iff_not_imp_left.2 fun hne dep hdep hkey => ?_, fun dep hdep hroot => ?_,
      fun dep hdep hne hkind n first hfirst hkey => ?_, fun dep hdep hne => ?_⟩
    · obtain ⟨first, hmem, hfirst⟩ := exists_taken hwalk hdep (hkey ▸ hne)
      exact hown first hmem (hfirst.trans hkey)
    · by_contra hown
      have hne : dep.projectID ≠ projectOf provider root := by
        rw [hroot]
        exact Ne.symm hown
      obtain ⟨first, hmem, hkey, -⟩ := hlisted dep (isEntry_of_isMet hwalk hentries hdep) hne
      exact ne_root_of_walk hwalk hmem (hkey.trans hroot)
    · have hentry := isEntry_of_isMet hwalk hentries hdep
      obtain ⟨listed, hmem, hlistedKey, hrequired⟩ := hlisted dep hentry hne
      have hsame := eq_of_walk hwalk hmem ((FirstVisit.firstLevels_prefix hwalk n).subset hfirst)
        (hlistedKey.trans hkey.symm)
      exact hsame ▸ hrequired ⟨dep, hentry, hkind, rfl⟩
    · obtain ⟨first, hmem, hkey, hrequired⟩ := hlisted dep hdep hne
      exact ⟨first, hmet first hmem, hkey, fun hkind => hrequired ⟨dep, hdep, hkind, rfl⟩⟩
  · intro h
    refine ⟨fun dep hdep => ?_, fun dep hdep hne => ?_⟩
    · rcases h.own with hown | hown
      · rw [hown]
        exact ne_root_of_walk hwalk hdep
      · exact hown dep (hmet dep hdep)
    · have htaken : ∀ dep', IsMet provider mcVersion loader root dep' →
          dep'.projectID = dep.projectID → ∃ first ∈ taken, first.projectID = dep.projectID := by
        intro dep' hmet' hkey
        rw [← hkey] at hne ⊢
        exact exists_taken hwalk hmet' fun hroot => hne (hroot.trans (h.ids dep' hmet' hroot).symm)
      obtain ⟨dep', hmet', hkey', -⟩ := h.pins dep hdep hne
      obtain ⟨first, hmem, hkey⟩ := htaken dep' hmet' hkey'
      refine ⟨first, hmem, hkey, ?_⟩
      rintro ⟨dep'', hdep'', hkind, hkey''⟩
      obtain ⟨needed, hneeded, hneededKey, hrequired⟩ := h.pins dep'' hdep'' (hkey'' ▸ hne)
      have hsame := hneededKey.trans hkey''
      exact h.first needed hneeded (hsame ▸ hne) (hrequired hkind) m first (hlevel ▸ hmem)
        (hkey.trans hsame.symm)

/-! ### Where one version is asked for of each project -/

/-- What is taken is the closure if the first entries of the levels are taken. -/
theorem isClosure_of_requiredFirst (hone : OneVersion provider mcVersion loader root)
    (h : RequiredFirst provider mcVersion loader root) : IsClosure provider mcVersion loader root
      (taken.map (row provider mcVersion loader installed)) := by
  have hlevels : ∀ n, FirstVisit.firsts ModDependency.projectID [root]
      (levels provider mcVersion loader root n) <+: taken := by
    intro n
    induction n with
    | zero => exact List.nil_prefix
    | succ n ih =>
      refine FirstVisit.firsts_levels_prefix hwalk (leads_levels hone h.ids ?_ ?_) ih
      · refine h.own.imp_right fun hown dep hdep => hown dep (isEntry_iff_levels.2 ⟨n, hdep⟩)
      · exact fun project hne hreq dep => h.first project hne hreq n dep
  rw [isClosure_row_iff hwalk hentries]
  refine ⟨fun dep hdep => ?_, fun dep hdep hne => ?_⟩
  · rcases h.own with hown | hown
    · rw [hown]
      exact ne_root_of_walk hwalk hdep
    · exact hown dep (hentries dep hdep)
  · obtain ⟨n, hn⟩ := isEntry_iff_levels.1 hdep
    have hroot : dep.projectID ∉ [root] := by
      rw [List.mem_singleton]
      intro hroot
      exact hne (hroot.trans (h.ids dep hdep hroot).symm)
    obtain ⟨first, hfirst, hkey⟩ := List.mem_map.1
      ((FirstVisit.mem_keys_firsts hroot).2 (List.mem_map_of_mem hn))
    have hfind := (FirstVisit.mem_firsts_iff.1 hfirst).2
    rw [hkey] at hfind
    exact ⟨first, (hlevels n).subset hfirst, hkey, fun hreq => h.first _ hne hreq n first hfind⟩

/-- The first entries of the levels are taken if what is taken is the closure. -/
theorem requiredFirst_of_isClosure (hone : OneVersion provider mcVersion loader root)
    (h : IsClosure provider mcVersion loader root
      (taken.map (row provider mcVersion loader installed))) :
    RequiredFirst provider mcVersion loader root := by
  obtain ⟨hown, hlisted⟩ := (isClosure_row_iff hwalk hentries).1 h
  have hids : ∀ dep, IsEntry provider mcVersion loader root dep → dep.projectID = root →
      projectOf provider root = root := by
    intro dep hdep hroot
    by_contra hown
    have hne : dep.projectID ≠ projectOf provider root := by
      rw [hroot]
      exact Ne.symm hown
    obtain ⟨first, hmem, hkey, -⟩ := hlisted dep hdep hne
    exact ne_root_of_walk hwalk hmem (hkey.trans hroot)
  -- What holds of the levels whose first entries are taken.
  have hown : ∀ n, FirstVisit.firsts ModDependency.projectID [root]
      (levels provider mcVersion loader root n) <+: taken → projectOf provider root ≠ root →
        ∀ dep ∈ levels provider mcVersion loader root n,
          dep.projectID ≠ projectOf provider root := by
    intro n hpre hne dep hdep hkey
    have hroot : dep.projectID ∉ [root] := by
      rwa [List.mem_singleton, hkey]
    obtain ⟨first, hfirst, heq⟩ := List.mem_map.1
      ((FirstVisit.mem_keys_firsts hroot).2 (List.mem_map_of_mem hdep))
    exact hown first (hpre.subset hfirst) (heq.trans hkey)
  have hfirst : ∀ n, FirstVisit.firsts ModDependency.projectID [root]
      (levels provider mcVersion loader root n) <+: taken → ∀ project ≠ projectOf provider root,
        RequiredFrom provider mcVersion loader root project → ∀ dep,
          (levels provider mcVersion loader root n).find? (·.projectID = project) = some dep →
            dep.dependencyType = .required := by
    intro n hpre project hne hreq dep hfind
    obtain rfl : dep.projectID = project := by simpa using List.find?_some hfind
    have hentry := isEntry_iff_levels.2 ⟨n, List.mem_of_find?_eq_some hfind⟩
    have hroot : dep.projectID ∉ [root] := by
      rw [List.mem_singleton]
      intro hroot
      exact hne (hroot.trans (hids dep hentry hroot).symm)
    obtain ⟨first, hmem, hkey, hkind⟩ := hlisted dep hentry hne
    have htaken := hpre.subset (FirstVisit.mem_firsts_iff.2 ⟨hroot, hfind⟩)
    exact eq_of_walk hwalk hmem htaken hkey ▸ hkind hreq
  have hlevels : ∀ n, FirstVisit.firsts ModDependency.projectID [root]
      (levels provider mcVersion loader root n) <+: taken := by
    intro n
    induction n with
    | zero => exact List.nil_prefix
    | succ n ih =>
      refine FirstVisit.firsts_levels_prefix hwalk (leads_levels hone hids ?_ (hfirst n ih)) ih
      exact or_iff_not_imp_left.2 (hown n ih)
  refine ⟨or_iff_not_imp_left.2 fun hne dep hdep => ?_, hids, fun project hne hreq n => ?_⟩
  · obtain ⟨n, hn⟩ := isEntry_iff_levels.1 hdep
    exact hown n (hlevels n) hne dep hn
  · exact hfirst n (hlevels n) project hne hreq

end

/-- The resolution ends and lists no project twice. Where one version is asked for of each project,
it lists the required closure exactly if the first entry of each required project is a required one
and neither the root's project nor its version's id comes up. -/
theorem resolveDependencies_closure (h : Resolvable provider mcVersion loader root) :
    ∃ n result, (∀ m ≥ n, resolveDependencies provider mcVersion loader installed m root =
        some (.ok result)) ∧
      (result.map (·.projectID)).Nodup ∧
      (IsClosure provider mcVersion loader root result ↔
        FirstEntriesSuffice provider mcVersion loader root) ∧
      (OneVersion provider mcVersion loader root →
        (IsClosure provider mcVersion loader root result ↔
          RequiredFirst provider mcVersion loader root)) := by
  obtain ⟨n, taken, hrun, hentries, ⟨m, hlevel⟩, hwalk⟩ :=
    @exists_resolveDependencies provider mcVersion loader installed root h
  refine ⟨n, _, hrun, ?_, isClosure_iff_suffice hwalk hentries hlevel, fun hone => ⟨?_, ?_⟩⟩
  · rw [List.map_map]
    exact nodup_of_walk hwalk
  · exact requiredFirst_of_isClosure hwalk hentries hone
  · exact isClosure_of_requiredFirst hwalk hentries hone

end

/-! ## A project that is optional first -/

/-- A provider that knows these versions. -/
def registry (versions : List ModVersion) : Provider where
  getVersion id := match versions.find? (·.id = id) with
    | some v => .ok v
    | none => .error "HTTP 404"
  getVersions project _ _ := .ok (versions.filter (·.projectID = project))
  getAllVersions project := .ok (versions.filter (·.projectID = project))
  getProject project := .ok project

/-- `X` is optional for the root and required by `Y`, and it requires `Z`. -/
def optionalFirst : List ModVersion :=
  [⟨"r", "R", [⟨"X", "", .optional⟩, ⟨"Y", "", .required⟩]⟩, ⟨"y", "Y", [⟨"X", "", .required⟩]⟩,
    ⟨"x", "X", [⟨"Z", "", .required⟩]⟩, ⟨"z", "Z", []⟩]

theorem resolvable_of_closed {provider : Provider} {mcVersion loader root : String}
    {ids : List String} (hnamed : root ≠ "") (hroot : root ∈ ids)
    (hfound : ∀ id ∈ ids, ∃ v, provider.getVersion id = .ok v)
    (hresolves : ∀ id ∈ ids, ∀ dep ∈ entries provider id, ∃ v,
      dependencyVersion provider mcVersion loader dep = .ok v ∧ v.id ≠ "" ∧ v.id ∈ ids) :
    Resolvable provider mcVersion loader root := by
  have hmem : ∀ id, Reaches provider mcVersion loader root id → id ∈ ids := by
    intro id hid
    induction hid with
    | refl => exact hroot
    | tail _ hstep ih =>
      obtain ⟨dep, hdep, hnext⟩ := hstep
      obtain ⟨v, hv, hid, hmem⟩ := hresolves _ ih dep hdep
      rw [requires, if_pos (required_of_requires hnext), hv] at hnext
      simp only [hid, if_false] at hnext
      exact Option.some.inj hnext ▸ hmem
  refine ⟨hnamed, ?_, fun id hid => hfound id (hmem id hid), ?_⟩
  · exact (List.finite_toSet ids).subset hmem
  · rintro dep ⟨id, hid, hdep⟩
    obtain ⟨v, hv, hname, -⟩ := hresolves id (hmem id hid) dep hdep
    exact ⟨v, hv, hname⟩

theorem resolvable_optionalFirst : Resolvable (registry optionalFirst) "1.20.1" "fabric" "r" := by
  apply @resolvable_of_closed _ _ _ _ ["r", "y", "x", "z"] (by decide) (by decide)
  · intro id hid
    simp only [List.mem_cons, List.not_mem_nil, or_false] at hid
    rcases hid with rfl | rfl | rfl | rfl
    all_goals exact ⟨_, rfl⟩
  · intro id hid dep hdep
    simp only [List.mem_cons, List.not_mem_nil, or_false] at hid
    rcases hid with rfl | rfl | rfl | rfl
    · have hentries : entries (registry optionalFirst) "r" =
          [⟨"X", "", .optional⟩, ⟨"Y", "", .required⟩] := by decide
      rw [hentries, List.mem_cons, List.mem_singleton] at hdep
      rcases hdep with rfl | rfl
      · exact ⟨⟨"x", "X", [⟨"Z", "", .required⟩]⟩, by decide, by decide, by decide⟩
      · exact ⟨⟨"y", "Y", [⟨"X", "", .required⟩]⟩, by decide, by decide, by decide⟩
    · have hentries : entries (registry optionalFirst) "y" = [⟨"X", "", .required⟩] := by
        decide
      rw [hentries, List.mem_singleton] at hdep
      subst hdep
      exact ⟨⟨"x", "X", [⟨"Z", "", .required⟩]⟩, by decide, by decide, by decide⟩
    · have hentries : entries (registry optionalFirst) "x" = [⟨"Z", "", .required⟩] := by
        decide
      rw [hentries, List.mem_singleton] at hdep
      subst hdep
      exact ⟨⟨"z", "Z", []⟩, by decide, by decide, by decide⟩
    · have hentries : entries (registry optionalFirst) "z" = [] := by decide
      rw [hentries] at hdep
      cases hdep

theorem resolveDependencies_closure_optionalFirst : ∃ n result,
    (∀ m ≥ n, resolveDependencies (registry optionalFirst) "1.20.1" "fabric" (fun _ => false) m
      "r" = some (.ok result)) ∧
    (result.map (·.projectID)).Nodup ∧
    (IsClosure (registry optionalFirst) "1.20.1" "fabric" "r" result ↔
      FirstEntriesSuffice (registry optionalFirst) "1.20.1" "fabric" "r") ∧
    (OneVersion (registry optionalFirst) "1.20.1" "fabric" "r" →
      (IsClosure (registry optionalFirst) "1.20.1" "fabric" "r" result ↔
        RequiredFirst (registry optionalFirst) "1.20.1" "fabric" "r")) :=
  resolveDependencies_closure resolvable_optionalFirst

/-- `X` is listed as optional and its `Z` is not listed, although both are required. -/
theorem not_isClosure_optionalFirst : ∃ result,
    resolveDependencies (registry optionalFirst) "1.20.1" "fabric" (fun _ => false) 9 "r" =
      some (.ok result) ∧
    (result.map fun r => (r.projectID, r.required)) = [("X", false), ("Y", true)] ∧
    ¬ IsClosure (registry optionalFirst) "1.20.1" "fabric" "r" result := by
  refine ⟨[⟨"X", "X", ⟨"x", "X", [⟨"Z", "", .required⟩]⟩, false, false⟩,
    ⟨"Y", "Y", ⟨"y", "Y", [⟨"X", "", .required⟩]⟩, true, false⟩], by decide +kernel, rfl,
    fun h => ?_⟩
  have hreaches : Reaches (registry optionalFirst) "1.20.1" "fabric" "r" "y" :=
    .tail .refl ⟨⟨"Y", "", .required⟩, by decide +kernel, by decide +kernel⟩
  have hrequired : RequiredFrom (registry optionalFirst) "1.20.1" "fabric" "r" "X" :=
    ⟨⟨"X", "", .required⟩, ⟨"y", hreaches, by decide +kernel⟩, rfl, rfl⟩
  obtain ⟨r, hr, hkey, hkind⟩ := (h.required "X" (by decide +kernel)).2 hrequired
  simp only [List.mem_cons, List.not_mem_nil, or_false] at hr
  rcases hr with rfl | rfl
  · cases hkind
  · revert hkey
    decide

end Konnekt.Modrinth

import Konnekt.Server.Configs

/-!
# Concurrent changes of the server configurations

A write does to its own server what it is for, and takes every other one back to
what its call read. Nothing is lost as long as the other servers are still as the
call read them, and an update's copy is still what it would find.
-/

namespace Konnekt.Server

open Threads

/-! ## One server of a list -/

theorem getServerConfig_putConfig (cfg : ServerConfig) (configs : List ServerConfig) (id : String) :
    getServerConfig id (putConfig cfg configs) =
      if cfg.id = id then some cfg else getServerConfig id configs := by
  unfold getServerConfig
  induction configs with
  | nil => by_cases h : cfg.id = id <;> simp [putConfig, h]
  | cons c configs ih =>
    rw [putConfig]
    by_cases hc : c.id = cfg.id
    · rw [if_pos hc]
      by_cases h : cfg.id = id
      · simp [h]
      · simp [h, hc]
    · rw [if_neg hc, List.find?_cons, List.find?_cons]
      by_cases hid : c.id = id
      · have hne : ¬ cfg.id = id := fun h => hc (hid.trans h.symm)
        simp [hid, hne]
      · simpa [hid] using ih

theorem getServerConfig_removeConfig (id' : String) (configs : List ServerConfig) (id : String) :
    getServerConfig id (removeConfig id' configs) =
      if id' = id then none else getServerConfig id configs := by
  unfold getServerConfig removeConfig
  induction configs with
  | nil => simp
  | cons c configs ih =>
    by_cases hc : c.id = id'
    · rw [List.filter_cons_of_neg (by simpa using hc), ih, List.find?_cons]
      by_cases hid : id' = id
      · simp [hid]
      · simp [hid, hc]
    · rw [List.filter_cons_of_pos (by simpa using hc), List.find?_cons, List.find?_cons, ih]
      by_cases hid : c.id = id
      · have hne : ¬ id' = id := fun h => hc (hid.trans h.symm)
        simp [hid, hne]
      · simp [hid]

theorem id_sanitizeTarget (cfg : ServerConfig) : (sanitizeTarget cfg).id = cfg.id := by
  unfold sanitizeTarget
  split <;> rfl

theorem id_recordVersion (version : String) (cfg : ServerConfig) :
    (recordVersion version cfg).id = cfg.id := by
  unfold recordVersion
  rfl

theorem ConfigWrite.get_apply_of_ne {w : ConfigWrite} {id : String} (h : w.id ≠ id)
    (configs : List ServerConfig) :
    getServerConfig id (w.apply configs) = getServerConfig id configs := by
  cases w with
  | put cfg => exact (getServerConfig_putConfig cfg configs id).trans (if_neg h)
  | remove id' => exact (getServerConfig_removeConfig id' configs id).trans (if_neg h)
  | record copy version =>
    have hid : (sanitizeTarget (recordVersion version copy)).id = copy.id := by
      rw [id_sanitizeTarget, id_recordVersion]
    exact (getServerConfig_putConfig _ configs id).trans
      (if_neg fun heq => h (hid.symm.trans heq))

theorem ConfigWrite.intended_of_ne {w : ConfigWrite} {id : String} (h : w.id ≠ id)
    (cfg : Option ServerConfig) : w.intended id cfg = cfg :=
  if_neg h

/-! ## Writes that take nothing back -/

/-- The copy of an update is, but for what the update records, the configuration that is there. -/
def ConfigWrite.Fresh (file : List ServerConfig) : ConfigWrite → Prop
  | .put _ | .remove _ => True
  | .record copy version => ∃ cfg, getServerConfig copy.id file = some cfg ∧
      sanitizeTarget (recordVersion version { cfg with loader := copy.loader }) =
        sanitizeTarget (recordVersion version copy)

/-- The other servers are as the call read them, and an update's copy as it would find it. -/
def KeepsOthers (c : Config ConfigStore ConfigCall) : ConfigCall → Prop
  | .writing w read =>
    (∀ id, id ≠ w.id → getServerConfig id read = getServerConfig id c.shared.file) ∧
      w.Fresh c.shared.file
  | _ => True

/-- A write that is fresh has its intended effect on its own server. -/
theorem ConfigWrite.get_apply_self {w : ConfigWrite} {file : List ServerConfig} (hw : w.Fresh file)
    (read : List ServerConfig) :
    getServerConfig w.id (w.apply read) = w.intended w.id (getServerConfig w.id file) := by
  simp only [intended, if_true]
  cases w with
  | put cfg => exact (getServerConfig_putConfig cfg read cfg.id).trans (if_pos rfl)
  | remove id => exact (getServerConfig_removeConfig id read id).trans (if_pos rfl)
  | record copy version =>
    obtain ⟨cfg, hcfg, hsame⟩ := hw
    have hid : (sanitizeTarget (recordVersion version copy)).id = copy.id := by
      rw [id_sanitizeTarget, id_recordVersion]
    have hput := getServerConfig_putConfig (sanitizeTarget (recordVersion version copy)) read copy.id
    rw [if_pos hid] at hput
    simp only [ConfigWrite.id, apply, hcfg, Option.map_some, hsame]
    exact hput

/-- Every server holds the fields of the last save made of it, an update having changed its
versions; a server that was deleted is not there, and no other one is missing. -/
def NothingLost (file : List ServerConfig) (s : ConfigStore) : Prop :=
  ∀ id, getServerConfig id s.file = intendedConfig file id s.written

/-- Nothing is lost in a run whose writes keep the other servers and find a fresh copy. -/
theorem nothingLost_of_keepsOthers {file : List ServerConfig}
    {trace : Trace ConfigStore ConfigCall} {c : Config ConfigStore ConfigCall}
    (hrun : Run configProgram KeepsOthers (initialConfigs file) trace c) :
    NothingLost file c.shared := by
  intro id
  induction hrun with
  | nil => rfl
  | call _ _ _ ih => exact ih
  | act hrun hallowed h ih =>
    cases h with
    | step pre post hstep =>
      cases hstep with
      | write w read =>
        obtain ⟨hothers, hfresh⟩ := hallowed
        by_cases hid : w.id = id
        · subst hid
          rw [intendedConfig, ← ih]
          exact w.get_apply_self hfresh read
        · rw [intendedConfig, ← ih, ConfigWrite.intended_of_ne hid, ← hothers id (Ne.symm hid)]
          exact ConfigWrite.get_apply_of_ne hid read
      | _ => exact ih

/-! ## An edit made while the loader is updated -/

def survival : ServerConfig := { id := "survival", loader := "neoforge", loaderVersion := "21.1.1" }

/-- A server is saved, and nothing else happens. -/
theorem nothingLost_save :
    NothingLost [] ⟨[survival], [.put survival]⟩ := by
  have hrun : Run configProgram KeepsOthers (initialConfigs []) [] (initialConfigs []) := .nil
  have hcall := hrun.call (.save survival) trivial
  have hread := hcall.actAt [] [] rfl trivial (.save survival)
  have hvalid : validServerID survival.id = true := by decide
  have hclean : sanitizeTarget survival = survival := by decide
  rw [hvalid, hclean] at hread
  have hwrite := hread.actAt [] [] rfl ⟨fun _ _ => rfl, trivial⟩ (.write _ _)
  exact nothingLost_of_keepsOthers hwrite

/-- The JVM arguments saved during an update are gone when it has recorded its version. -/
theorem update_takes_edit_back :
    ¬ ∀ (file : List ServerConfig) (trace : Trace ConfigStore ConfigCall)
      (c : Config ConfigStore ConfigCall),
      Run configProgram Unrestricted (initialConfigs file) trace c →
      (∀ t ∈ c.threads, t = .returned) → NothingLost file c.shared := by
  intro h
  have hrun : Run configProgram Unrestricted (initialConfigs [survival]) []
    (initialConfigs [survival]) := .nil
  have hupdate := hrun.call (.update "survival" "21.1.72" "neoforge") trivial
  have hcopy := hupdate.actAt [] [] rfl trivial (.update _ _ _)
  have hsave := hcopy.call (.save { survival with jvmArgs := ["-Xmx8G"] }) trivial
  have hread := hsave.actAt [.updating survival "21.1.72"] [] rfl trivial (.save _)
  have hwrite := hread.actAt [.updating survival "21.1.72"] [] rfl trivial (.write _ _)
  have hfinish := hwrite.actAt [] [.returned] rfl trivial (.finish _ _)
  have hrecord := hfinish.actAt [] [.returned] rfl trivial (.write _ _)
  have hreturned : ∀ t ∈ [ConfigCall.returned, .returned], t = .returned := by simp
  have hlost := h _ _ _ hrecord hreturned "survival"
  exact absurd hlost (by decide)

end Konnekt.Server

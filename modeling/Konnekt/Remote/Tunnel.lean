import Konnekt.Go.Text
import Konnekt.Run.Threads
import Mathlib.Data.Finset.Erase
import Mathlib.Data.Finset.Insert

/-!
# The tunnel

The tunnel service starts and stops `cloudflared` and is told the hostnames it comes
up at. A run reports under the service's lock, and only while its generation is the
current one. The listener is told of hostnames after the lock is released.
-/

namespace Konnekt.Remote.Tunnel

open Go

/-! ## Hostnames -/

/-- Lower case of a letter, as far as it is ASCII. The last two are the only other letters with an
ASCII lower case. -/
def lowerRune (c : Char) : Char :=
  if c = '\u0130' then 'i' else if c = '\u212A' then 'k' else lower c

/-- `strings.ToLower`, for text that is compared with ASCII. -/
def toLower (s : String) : String := String.ofList (s.toList.map lowerRune)

theorem char_le_iff (c d : Char) : c ≤ d ↔ c.toNat ≤ d.toNat := by
  rw [Char.le_def, UInt32.le_iff_toNat_le]
  rfl

theorem toNat_ofNat_of_lt {n : Nat} (h : n < 0xd800) : (Char.ofNat n).toNat = n := by
  have hvalid : n.isValidChar := .inl h
  rw [Char.ofNat, dif_pos hvalid]
  rfl

theorem lowerRune_of_lower {c : Char} (hrange : c.toNat < 65 ∨ 90 < c.toNat ∧ c.toNat < 304) :
    lowerRune c = c := by
  have hdotted : c ≠ '\u0130' := by
    rintro rfl
    exact absurd hrange (by decide)
  have hkelvin : c ≠ '\u212A' := by
    rintro rfl
    exact absurd hrange (by decide)
  have hupper : ¬ ('A' ≤ c ∧ c ≤ 'Z') := by
    rw [char_le_iff, char_le_iff, show 'A'.toNat = 65 from rfl, show 'Z'.toNat = 90 from rfl]
    omega
  rw [lowerRune, if_neg hdotted, if_neg hkelvin, lower, if_neg hupper]

theorem lowerRune_lowerRune (c : Char) : lowerRune (lowerRune c) = lowerRune c := by
  by_cases hdotted : c = '\u0130'
  · subst hdotted
    decide
  · by_cases hkelvin : c = '\u212A'
    · subst hkelvin
      decide
    · have hone : lowerRune c = lower c := by rw [lowerRune, if_neg hdotted, if_neg hkelvin]
      by_cases hupper : 'A' ≤ c ∧ c ≤ 'Z'
      · rw [hone, lower, if_pos hupper]
        rw [char_le_iff, char_le_iff, show 'A'.toNat = 65 from rfl,
          show 'Z'.toNat = 90 from rfl] at hupper
        apply lowerRune_of_lower
        rw [toNat_ofNat_of_lt (by omega)]
        omega
      · have hsame : lowerRune c = c := by rw [hone, lower, if_neg hupper]
        rw [hsame, hsame]

theorem toLower_toLower (s : String) : toLower (toLower s) = toLower s := by
  simp only [toLower, String.toList_ofList, List.map_map]
  congr 1
  exact List.map_congr_left fun c _ => lowerRune_lowerRune c

/-- A hostname as the tunnel knows it, in lower case. -/
structure Hostname where
  name : String
  lower : toLower name = name
  deriving DecidableEq

/-- The characters of a label. -/
def labelChar (c : Char) : Bool :=
  ('a' ≤ c && c ≤ 'z') || ('0' ≤ c && c ≤ '9') || c == '-'

theorem lowerRune_of_labelChar {c : Char} (h : labelChar c = true) : lowerRune c = c := by
  apply lowerRune_of_lower
  simp only [labelChar, Bool.or_eq_true, Bool.and_eq_true, decide_eq_true_eq, beq_iff_eq,
    char_le_iff] at h
  rcases h with (⟨hlow, hhigh⟩ | ⟨hlow, hhigh⟩) | rfl
  · have hlow' : 97 ≤ c.toNat := hlow
    have hhigh' : c.toNat ≤ 122 := hhigh
    omega
  · have hhigh' : c.toNat ≤ 57 := hhigh
    omega
  · decide

theorem toLower_append (s t : String) : toLower (s ++ t) = toLower s ++ toLower t := by
  apply String.toList_inj.1
  simp only [toLower, String.toList_append, String.toList_ofList, List.map_append]

theorem toLower_of_labelChars {cs : List Char} (h : ∀ c ∈ cs, labelChar c = true) :
    toLower (String.ofList cs) = String.ofList cs := by
  have hsame : cs.map lowerRune = cs := by
    conv_rhs => rw [← List.map_id cs]
    exact List.map_congr_left fun c hc => lowerRune_of_labelChar (h c hc)
  rw [toLower, String.toList_ofList, hsame]

/-- `tunnelHostMax`. -/
def tunnelHostMax : Nat := 253

/-- `tunnelLabelMax`. -/
def tunnelLabelMax : Nat := 63

/-- A label of a DNS name. -/
def validLabel (l : String) : Bool :=
  l ≠ "" && l.utf8ByteSize ≤ tunnelLabelMax && l.toList.head? ≠ some '-' &&
    l.toList.getLast? ≠ some '-' && l.toList.all labelChar

/-- `ValidTunnelHostname`. -/
def validTunnelHostname (raw : String) : Option Hostname :=
  let host := toLower (trimSpace raw)
  if host = "" ∨ tunnelHostMax < host.utf8ByteSize ∨ host.toList.any ("*/:@ ".toList.contains ·) then
    none
  else
    let labels := split host '.'
    if 2 ≤ labels.length ∧ labels.all validLabel then
      some ⟨host, toLower_toLower (trimSpace raw)⟩
    else none

/-- `validTunnelToken`: neither empty nor too long, and printable ASCII without blanks. -/
def validTunnelToken (token : String) : Bool :=
  token ≠ "" && token.utf8ByteSize ≤ 4096 && token.toList.all fun c => '!' ≤ c && c ≤ '~'

theorem lower_quickHost (cs : List Char) :
    toLower (String.ofList (cs.takeWhile labelChar) ++ ".trycloudflare.com") =
      String.ofList (cs.takeWhile labelChar) ++ ".trycloudflare.com" := by
  have hdomain : toLower ".trycloudflare.com" = ".trycloudflare.com" := by decide
  rw [toLower_append, hdomain, toLower_of_labelChars fun c hc => List.mem_takeWhile_imp hc]

/-- The hostname `tunnelURLPattern` finds at the front of a text. -/
def urlHost (cs : List Char) : Option Hostname :=
  if "https://".toList <+: cs then
    let cs := cs.drop 8
    if cs.takeWhile labelChar ≠ [] ∧ ".trycloudflare.com".toList <+: cs.dropWhile labelChar then
      some ⟨String.ofList (cs.takeWhile labelChar) ++ ".trycloudflare.com", lower_quickHost cs⟩
    else none
  else none

/-- `findTunnelURL`: the hostname of the first URL on a line, that of the control endpoint apart. -/
def findTunnelURL : List Char → Option Hostname
  | [] => none
  | c :: cs => match urlHost (c :: cs) with
    | some host => if host.name = "api.trycloudflare.com" then findTunnelURL cs else some host
    | none => findTunnelURL cs

/-! ## The service -/

inductive Status where
  | off | downloading | starting | running | failed
  deriving DecidableEq, Repr

/-- `TunnelState`, apart from the named tunnel and the version. -/
structure TunnelState where
  status : Status
  url : String
  error : String
  percent : Nat
  deriving DecidableEq

/-- `NamedTunnel`. -/
structure NamedTunnel where
  hostname : Option Hostname
  port : Nat
  tokenSet : Bool
  deriving DecidableEq

/-- A call of `OnHost`, and whether the hostname was forgotten or replaced. -/
structure HostCall where
  host : Hostname
  up : Bool
  final : Bool
  forgotten : Bool
  deriving DecidableEq

/-- `tunnelRun`: a quick tunnel, or the named one with its hostname. -/
inductive TunnelRun where
  | quick
  | named (host : Hostname)
  deriving DecidableEq

/-- A local address, as `net.SplitHostPort` takes it apart. -/
structure Addr where
  host : String
  port : Nat
  deriving DecidableEq

/-- The errors of the service. -/
inductive TunnelError where
  | badAddr | unsupported | running | noDataDir | portMismatch | badHostname | badPort | badToken
  | files
  deriving DecidableEq, Repr

/-- `TunnelService`. The cancel function and the done channel are those of the run of a
generation. -/
structure TunnelService where
  dataDir : Bool
  state : TunnelState
  named : NamedTunnel
  gen : Nat
  cancel : Option Nat
  host : Option Hostname
  final : Bool

/-- A state with nothing but its status. -/
def TunnelState.of (status : Status) : TunnelState :=
  { status := status, url := "", error := "", percent := 0 }

/-- `NewTunnelService`, once the data directory has been set and the configuration read. -/
def newTunnelService (dataDir : Bool) (named : NamedTunnel) : TunnelService where
  dataDir := dataDir
  state := .of .off
  named := named
  gen := 0
  cancel := none
  host := none
  final := false

/-- `validTunnelTarget`. -/
def validTunnelTarget (addr : Addr) : Bool :=
  (addr.host = "127.0.0.1" || addr.host = "localhost") && 1 ≤ addr.port && addr.port ≤ 65535

/-- `tunnelUp`: the hostname a line says the run is reachable at. -/
def TunnelRun.tunnelUp (line : String) : TunnelRun → Option Hostname
  | .named host =>
    if "Registered tunnel connection".toList <:+: line.toList ∨
      "Connection established".toList <:+: line.toList then some host else none
  | .quick => findTunnelURL line.toList

namespace TunnelService

/-- `active`: a run is in flight. -/
def active (t : TunnelService) : Bool :=
  match t.state.status with
  | .downloading | .starting | .running => true
  | .off | .failed => false

/-- `planRun`. -/
def planRun (t : TunnelService) (addr : Addr) : Except TunnelError TunnelRun :=
  match t.named.hostname with
  | some host =>
    if t.named.tokenSet then
      if addr.port = t.named.port then .ok (.named host) else .error .portMismatch
    else .ok .quick
  | none => .ok .quick

/-- `Start`, up to the run it starts. There is no address where it cannot be taken apart. -/
def start (supported : Bool) (addr : Option Addr) (t : TunnelService) :
    Except TunnelError (TunnelService × Addr × TunnelRun) :=
  match addr with
  | none => .error .badAddr
  | some addr =>
    if validTunnelTarget addr = false then .error .badAddr
    else if supported = false then .error .unsupported
    else if t.active then .error .running
    else if t.dataDir = false then .error .noDataDir
    else match t.planRun addr with
      | .error e => .error e
      | .ok plan => .ok ({ t with
          gen := t.gen + 1
          cancel := some (t.gen + 1)
          host := none
          final := plan = .quick
          state := .of .starting }, addr, plan)

/-- The first section of `Stop`, with the run it is going to cancel; none when nothing runs. -/
def stopBegin (t : TunnelService) : Option (TunnelService × Option Nat) :=
  if t.cancel = none ∧ t.state.status = .off then none
  else some ({ t with gen := t.gen + 1 }, t.cancel)

/-- The hostname has gone. -/
def down (t : TunnelService) : Option HostCall :=
  t.host.map fun host => { host := host, up := false, final := t.final, forgotten := false }

/-- The second section of `Stop`. -/
def stopEnd (t : TunnelService) : TunnelService × Option HostCall :=
  ({ t with cancel := none, host := none, state := .of .off }, t.down)

/-- `set`. -/
def set (gen : Nat) (f : TunnelState → TunnelState) (t : TunnelService) : TunnelService :=
  if gen ≠ t.gen then t else { t with state := f t.state }

/-- `up`. -/
def up (gen : Nat) (host : Hostname) (t : TunnelService) : TunnelService × Option HostCall :=
  if gen ≠ t.gen then (t, none)
  else ({ t with
    host := some host
    state := { status := .running, url := "https://" ++ host.name, error := "", percent := 0 } },
    some { host := host, up := true, final := false, forgotten := false })

/-- `fail`. -/
def fail (gen : Nat) (msg : String) (t : TunnelService) : TunnelService × Option HostCall :=
  if gen ≠ t.gen then (t, none)
  else ({ t with host := none, state := { TunnelState.of .failed with error := msg } }, t.down)

/-- The hostname that is no longer configured. -/
def forgotten (t : TunnelService) : Option HostCall :=
  t.named.hostname.map fun host => { host := host, up := false, final := true, forgotten := true }

/-- `SaveNamed`. The files may fail to be written. -/
def saveNamed (writes : Bool) (hostname : String) (port : Nat) (token : String)
    (t : TunnelService) : Except TunnelError (TunnelService × Option HostCall) :=
  match validTunnelHostname hostname with
  | none => .error .badHostname
  | some host =>
    if port < 1024 ∨ 65535 < port then .error .badPort
    else if token ≠ "" ∧ validTunnelToken token = false then .error .badToken
    else if t.dataDir = false then .error .noDataDir
    else if t.active then .error .running
    else if token = "" ∧ t.named.tokenSet = false then .error .badToken
    else if writes = false then .error .files
    else .ok ({ t with named := { hostname := some host, port := port, tokenSet := true } },
      if t.named.hostname = some host then none else t.forgotten)

/-- `ForgetNamed`. The files may fail to be removed. -/
def forgetNamed (removes : Bool) (t : TunnelService) :
    Except TunnelError (TunnelService × Option HostCall) :=
  if t.active then .error .running
  else if t.dataDir = false then .error .noDataDir
  else if removes = false then .error .files
  else .ok ({ t with named := { hostname := none, port := 0, tokenSet := false } }, t.forgotten)

end TunnelService

end Konnekt.Remote.Tunnel

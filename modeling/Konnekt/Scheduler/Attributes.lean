import Konnekt.Scheduler.Expr

/-!
# Attributes and their scope

An attribute is either built in, read live from the server the run acts on, or
custom, a raw expression some node of the run defined. Custom attributes are
evaluated on each reference, under the set of names whose evaluation is still
open; that set is extended for the nested evaluation and restored after it.
-/

namespace Konnekt.Scheduler

open Go

/-! ## Built-in attributes -/

/-- `attrMeta`: the declared type of a built-in attribute and whether it can be written. -/
structure AttrMeta where
  type : String
  writable : Bool
  deriving DecidableEq, Repr

/-- The central schema of server attributes. -/
def builtinAttrs : GoMap AttrMeta := GoMap.ofList [
  ("tps", ⟨"number", false⟩),
  ("players.count", ⟨"number", false⟩),
  ("ram.used", ⟨"number", false⟩),
  ("ram.left", ⟨"number", false⟩),
  ("ram.total", ⟨"number", false⟩),
  ("server.status", ⟨"bool", false⟩),
  ("players.max", ⟨"number", true⟩),
  ("server.whitelist", ⟨"bool", true⟩),
  ("server.port", ⟨"number", true⟩),
  ("server.gamemode", ⟨"number", true⟩),
  ("server.motd", ⟨"string", true⟩),
  ("server.world", ⟨"string", true⟩)]

/-- What the services answer about one server at the moment it is read. -/
structure ServerView where
  /-- `CurrentTPS`. -/
  tps : Float64
  /-- `PlayerCount`. -/
  playerCount : Int
  /-- `RAMUsedMB`. -/
  ramUsed : Float64
  /-- `RAMTotalMB`. -/
  ramTotal : Float64
  /-- `IsRunning`. -/
  running : Bool
  /-- `MaxPlayers`. -/
  maxPlayers : Int
  /-- `GetServerConfig`, of which only the error matters here. -/
  config : Except String Unit
  /-- `readProperties` on the server's `server.properties`. -/
  properties : Except String (GoMap String)

def attrToPropertyKey (attr : String) : String :=
  if attr = "server.whitelist" then "white-list"
  else if attr = "server.port" then "server-port"
  else if attr = "server.gamemode" then "gamemode"
  else if attr = "server.motd" then "motd"
  else if attr = "server.world" then "level-name"
  else attr

/-- `readBuiltinAttribute`: the live value of a built-in attribute. -/
def readBuiltinAttribute (deps : String → ServerView) (serverID name : String) :
    Except String Value :=
  let srv := deps serverID
  match name with
  | "tps" => .ok (.num srv.tps)
  | "players.count" => .ok (.num (.fin srv.playerCount))
  | "ram.used" => .ok (.num srv.ramUsed)
  | "ram.left" => .ok (.num (srv.ramTotal.sub srv.ramUsed))
  | "ram.total" => .ok (.num srv.ramTotal)
  | "server.status" => .ok (.num (if srv.running then 1 else 0))
  | "players.max" => .ok (.num (.fin srv.maxPlayers))
  | "server.whitelist" | "server.port" | "server.gamemode" | "server.motd" | "server.world" =>
    match srv.config with
    | .error e => .error ("cannot read server.properties: " ++ e)
    | .ok _ => srv.properties.map fun props =>
      .str ((props.lookup (attrToPropertyKey name)).getD "")
  | _ => .error ("unknown attribute " ++ quote name)

/-! ## The scope of a run -/

/-- `AttrScope` without its guard set, which `resolveIn` carries. -/
structure AttrScope where
  serverID : String
  deps : String → ServerView
  /-- Raw expressions by attribute name. -/
  custom : GoMap String

namespace AttrScope

/-- `Define`: register or overwrite a custom attribute. -/
def define (scope : AttrScope) (name expr : String) : AttrScope :=
  { scope with custom := scope.custom.insert name expr }

/-- `IsCustom`. -/
def isCustom (scope : AttrScope) (name : String) : Bool := (scope.custom.lookup name).isSome

end AttrScope

/-- The expression a raw custom value is, if it is one: unwrapped from `@{…}`, or
any text that mentions `@`. -/
def customBody (raw : String) : Option (List Char) :=
  let t := trim raw.toList
  if ['@', '{'].isPrefixOf t && t.getLast? == some '}' then some ((t.drop 2).dropLast)
  else if t.contains '@' then some t
  else none

/-- `resolveCustomValue`. -/
def resolveCustomValue (resolve : String → Outcome Value) (raw : String) : Outcome Value :=
  match customBody raw with
  | some body => evalChars resolve body
  | none => match parseFloat (trimSpace raw) with
    | .ok f => .ok (.num f)
    | .error _ => .ok (.str raw)

/-- `Resolve` under the names whose evaluation is open. -/
def resolveIn (scope : AttrScope) : Nat → List String → String → Outcome Value
  | 0, _, _ => .panic outOfBudget
  | n + 1, visiting, name =>
    match scope.custom.lookup name with
    | some expr =>
      if name ∈ visiting then .err ("attribute cycle at @" ++ name)
      else resolveCustomValue (resolveIn scope n (name :: visiting)) expr
    | none => .ofExcept (readBuiltinAttribute scope.deps scope.serverID name)

/-- Nesting is bounded by the number of custom attributes. -/
def resolveBudget (scope : AttrScope) : Nat := scope.custom.entries.length + 1

/-- `AttrScope.Resolve` with no evaluation open. -/
def AttrScope.resolve (scope : AttrScope) (name : String) : Outcome Value :=
  resolveIn scope (resolveBudget scope) [] name

/-! ## Declared types -/

def goTypeLabel : Value → String
  | .num _ | .int _ | .int64 _ => "number"
  | .str _ => "string"
  | .bool _ => "bool"
  | .nil => "null"
  | .other _ => "unknown"

/-- `checkAttrType`: the complaint about a value that is not of the declared type. -/
def checkAttrType (val : Value) (declaredType : String) : Option String :=
  if declaredType = "" ∨ declaredType = "auto" then none
  else
    let fits := match declaredType, val with
      | "number", .num _ | "number", .int _ | "number", .int64 _ => true
      | "string", .str _ => true
      | "bool", .bool _ => true
      | "bool", .num f => f.eq 0 || f.eq 1
      | _, _ => false
    if fits then none else some ("expected " ++ declaredType ++ ", got " ++ goTypeLabel val)

end Konnekt.Scheduler

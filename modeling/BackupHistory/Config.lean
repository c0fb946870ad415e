import BackupHistory.Text.Lines
import BackupHistory.Toml.Reader
import BackupHistory.Tree.Arrangement

namespace BackupHistory

/-!
# View configuration

A view is configured by a few settings of a TOML document. Keys that are no
settings are passed over, and a setting that is not given has its default.
-/

/-- The settings of a view. -/
structure Config where
  /-- The instance whose history is expanded, the others staying closed. -/
  instanceId : Option String
  /-- The count of nodes that are opened for each plan. -/
  expandBudget : Nat
  rebuildDebounceMillis : Nat
  /-- How long to wait after a change stream has ended. -/
  resyncDelayMillis : Nat
  deriving Repr, DecidableEq

namespace Config

def default : Config where
  instanceId := none
  expandBudget := ExpansionPolicy.defaultBudget
  rebuildDebounceMillis := 100
  resyncDelayMillis := 1000

/-- Why settings are not at hand. -/
inductive Failure where
  | unreadable (failure : Text.ReadFailure)
  | invalid
  deriving Repr, DecidableEq

def textOf? : Toml → Option String
  | .string text => some text
  | _ => none

def countOf? : Toml → Option Nat
  | .integer number =>
      if 0 ≤ number then
        some number.toNat
      else
        none
  | _ => none

/-- The value of a setting, its default if it is not given. -/
def setting
    (document : Toml)
    (key : String)
    (decode : Toml → Option α)
    (default : α) :
    Option α :=
  match document.get? key with
  | none => some default
  | some value => decode value

def ofToml? (document : Toml) : Option Config := do
  some {
    instanceId :=
      ← setting document "instance_id"
        (fun value => (textOf? value).map some) default.instanceId
    expandBudget :=
      ← setting document "expand_budget" countOf? default.expandBudget
    rebuildDebounceMillis :=
      ← setting document "rebuild_debounce_ms" countOf?
        default.rebuildDebounceMillis
    resyncDelayMillis :=
      ← setting document "resync_delay_ms" countOf?
        default.resyncDelayMillis }

def read (text : String) : Except Failure Config :=
  match (Toml.read? text).bind ofToml? with
  | none => .error .invalid
  | some config => .ok config

def load (file : Option (List UInt8)) : Except Failure Config :=
  match Text.readFile file with
  | .error failure => .error (.unreadable failure)
  | .ok text => read text

/-- How trees of a view are to be expanded. -/
def treeOptions (config : Config) (scope : Tree.Scope) : TreeOptions where
  expansion :=
    some { ExpansionPolicy.ofScope scope with budget := config.expandBudget }
  expandInstance := config.instanceId

end Config

end BackupHistory

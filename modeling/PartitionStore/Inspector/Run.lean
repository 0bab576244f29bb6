import PartitionStore.Engine.Open
import PartitionStore.Engine.Requests
import PartitionStore.Inspector.Arguments

/-!
# `PartitionStore.Inspector.Run`: what the inspector does

Listing and measuring look at the store's folder only. Opening brings an
engine up as the store's owner, prints what it found, and closes it again; a
store of another table format is emptied by that, as it would be for a
server.

A relative root is looked up from a working directory, which is not part of
what is printed.
-/

set_option autoImplicit false

namespace PartitionStore.Inspector

/-- The inspector's name and version. -/
def versionLine : String := "partkv-inspect 0.1.0\n"

/-- A number as it is printed. -/
def number (n : Nat) : String := String.ofList (Nat.toDigits 10 n)

/-- A set of partition ids on one line. -/
def idSet (ids : List Int32) : String :=
  "\x7b" ++ ", ".intercalate (ids.map StoreError.idText) ++ "\x7d"

/-- The settings that the inspector opens a store with. -/
def Arguments.settings (a : Arguments) (workingDir : Path) : EngineSettings :=
  { EngineSettings.default with
    root := workingDir.join a.root
    store := a.store
    format := TableFormat.ofFlag a.plainTable }

/-- Opens the store, prints what was found, and closes it again. -/
def summarize (a : Arguments) (workingDir : Path) : HostAction String := do
  let engine ← Engine.open (a.settings workingDir)
  let host ← get
  let text :=
    "store:      " ++ engine.settings.store ++ "\n" ++
    "directory:  " ++ (Naming.storePath ⟨a.root⟩ a.store).text ++ "\n" ++
    "partitions: " ++ idSet engine.openIds ++ "\n" ++
    "size:       " ++ number (engine.size host.tree) ++ " bytes\n"
  match EngineAction.close ⟨engine, host⟩ with
  | .ok () r => do
    set r.host
    pure text
  | .error e r => do
    set r.host
    throw e

/-- What the inspector prints. -/
def Arguments.run (a : Arguments) (workingDir : Path) : StoreAction String := fun t =>
  match StoreFolder.named (workingDir.join a.root) a.store with
  | .error e => .error e t
  | .ok d =>
    match a.command with
    | .ids =>
      match d.idsOnDisk t with
      | .error e t' => .error e t'
      | .ok ids t' => .ok (String.join (ids.map fun id => StoreError.idText id ++ "\n")) t'
    | .size => .ok (number (d.size t) ++ "\n") t
    | .summary =>
      match summarize a workingDir (Host.ofTree t) with
      | .error e host => .error e host.tree
      | .ok text host => .ok text host.tree

/-- How a run of the inspector ends. -/
structure Outcome where
  /-- The exit code: 0, or 1 if the store failed, or 2 if the command line follows no rule. -/
  code : Nat
  /-- What is printed. The text of the help, which is the argument parser's own, is left out. -/
  output : String
  deriving DecidableEq, Repr, Inhabited

/-- Runs the inspector on a file tree. -/
def run (workingDir : Path) (args : List String) (t : FileTree) : Outcome × FileTree :=
  match Invocation.read args with
  | .misuse => (⟨2, ""⟩, t)
  | .version => (⟨0, versionLine⟩, t)
  | .help => (⟨0, ""⟩, t)
  | .run a =>
    match a.run workingDir t with
    | .ok text t' => (⟨0, text⟩, t')
    | .error _ t' => (⟨1, ""⟩, t')

end PartitionStore.Inspector

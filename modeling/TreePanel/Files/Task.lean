import TreePanel.Files

/-!
# What files are used for

A file operation that fails is told together with what it was for and with the path it was given.
-/

namespace TreePanel

/-- What a file operation is for. -/
inductive FileTask where
  | readSettings
  | makeSettingsFolder
  | writeSettings
  | makeFolder
  | readDocument
deriving DecidableEq, Repr

/-- How a message begins that tells of a failed task. -/
def FileTask.text : FileTask → String
  | readSettings => "Failed to read config at "
  | makeSettingsFolder => "Failed to create config directory "
  | writeSettings => "Failed to write config to "
  | makeFolder => "Failed to create directory "
  | readDocument => "failed to read "

/-- A task that failed. -/
structure FileFault where
  task : FileTask
  path : String
  failure : Files.Failure

/-- What a failed task was about. -/
def FileFault.context (f : FileFault) : String := f.task.text ++ f.path

/-- The wording of a failed task. -/
def FileFault.message (f : FileFault) : String := f.context ++ ": " ++ f.failure.message

/-- A file operation as part of a task. -/
def FileTask.run {α : Type} (task : FileTask) (path : String) (result : Except Files.Failure α) :
    Except FileFault α :=
  result.mapError fun failure => ⟨task, path, failure⟩

end TreePanel

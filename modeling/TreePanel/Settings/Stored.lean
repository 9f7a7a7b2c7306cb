import TreePanel.Environment
import TreePanel.Settings.Reader

/-!
# Stored settings

Settings are loaded from a file and saved to one. Loading from the user's own file never fails:
whatever is wrong with it, the defaults are used instead. Saving makes the folders on the way to
the file.
-/

namespace TreePanel

namespace Settings

/-- Why settings could not be loaded. -/
inductive LoadError where
  | file (fault : FileFault)
  /-- The file at `path` holds something else. -/
  | content (path : String) (error : ReadError)

/-- What the content of a file was to be used for. -/
def parseContext (path : String) : String := "Failed to parse config at " ++ path

/-- Load settings from a file. -/
def loadFrom (files : Files) (path : String) : Except LoadError Settings := do
  let text ← (FileTask.readSettings.run path (files.readText path)).mapError .file
  (ofText text).mapError (.content path)

/-- Load the user's settings. -/
def load (files : Files) (e : Environment) : Settings :=
  match loadFrom files e.settingsFile with
  | .ok settings => settings
  | .error _ => {}

/-- Save settings to a file. The folders around it stay made even if the file cannot be written. -/
def saveTo (s : Settings) (files : Files) (path : String) : Except FileFault Unit × Files :=
  let folder := Path.parent path
  let (made, files) := files.makeFolders folder
  match FileTask.makeSettingsFolder.run folder made with
  | .error fault => (.error fault, files)
  | .ok () =>
    match FileTask.writeSettings.run path (files.write path (String.ofList s.text).toUTF8) with
    | .error fault => (.error fault, files)
    | .ok files => (.ok (), files)

/-- Save the user's settings. -/
def save (s : Settings) (files : Files) (e : Environment) : Except FileFault Unit × Files :=
  s.saveTo files e.settingsFile

end Settings

end TreePanel

import TreePanel.Files.Task

/-!
# Where things are kept

Settings and logs are kept in a folder of the panel's own, below the folder that the user has for
settings of all kinds.
-/

namespace TreePanel

/-- What the user's environment says of folders. -/
structure Environment where
  /-- The folder for settings of all kinds, if one is named; the name may be empty. -/
  settingsHome : Option String
  /-- The home folder; an empty name names none. -/
  home : String
  /-- The home folder that the user's account has. -/
  accountHome : String

namespace Environment

/-- The home folder: the one that is named, or else the account's. -/
def homeFolder (e : Environment) : String := if e.home.isEmpty then e.accountHome else e.home

/-- The panel's own folder. Unless the environment names another one, settings of all kinds are
kept in `.config` of the home folder. -/
def folder (e : Environment) : String :=
  Path.join (e.settingsHome.getD (Path.join e.homeFolder ".config")) "syntax-inspector"

/-- The file of the settings. -/
def settingsFile (e : Environment) : String := Path.join e.folder "inspector.yaml"

/-- The folder of the logs. -/
def logFolder (e : Environment) : String := Path.join e.folder "logs"

/-- How the names of log files begin. -/
def logFileStem : String := "inspector.log"

/-- Make the folder of the logs, and tell where it is. -/
def makeLogFolder (e : Environment) (files : Files) : Except FileFault String × Files :=
  let (made, files) := files.makeFolders e.logFolder
  ((FileTask.makeFolder.run e.logFolder made).map fun _ => e.logFolder, files)

end Environment

end TreePanel

import WordMachine.Vm.Step

/-!
# Run configuration

How to run an image file: where its save file is, where to look for extensions, and whether to log
each instruction. A program run this way prints to standard output.
-/

namespace WordMachine

/-- How to run an image file. -/
structure Config where
  image : String
  save : String
  libDirs : List String
  trace : Bool
  deriving DecidableEq, Repr

namespace Config

/-- The path of the save file that belongs to an image. -/
def savePathFor (image : String) : String := Path.withExtension image "sav"

/-- The configuration of an image without further wishes. -/
def ofImage (image : String) : Config := ⟨image, savePathFor image, [], false⟩

/-- The configuration with further directories to look for extensions in. -/
def addLibDirs (c : Config) (dirs : List String) : Config := { c with libDirs := c.libDirs ++ dirs }

/-- The configuration with the directories that the environment names, if it does. -/
def addSearchPath (c : Config) (searchPath : Option String) : Config :=
  c.addLibDirs ((searchPath.map Path.searchList).getD [])

end Config

/-- The virtual machine of a configuration. -/
def Vm.load (config : Config) (libraries : Libraries) : EStateM Fault Host Vm := do
  let vm ← Vm.openFile config.image {
    console := .ofSink (.terminal .empty)
    save := .ofPath config.save
    loader := .ofDirs config.libDirs
    libraries := libraries }
  return { vm with trace := config.trace }

end WordMachine

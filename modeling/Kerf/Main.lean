import Kerf.Command.Run

/-!
# The program

The commands run on the files and variables of the surrounding system.
-/

set_option autoImplicit false

namespace Kerf.Command

def isDirectoryIO (name : String) : IO Bool := do
  let path ← IO.FS.realPath name
  path.isDir

def failureIO (name : String) : IO FileError := do
  if ← isDirectoryIO name then return .isDirectory
  return .missing

def systemHost : Host IO :=
  { environment := fun name => IO.getEnv name
    readText := fun name => do
      try
        let text ← IO.FS.readFile name
        return .ok text
      catch _ => return .error (← failureIO name)
    writeText := fun name text => do
      try
        IO.FS.writeFile name text
        return .ok ()
      catch _ => return .error (← failureIO name)
    namesIn := fun directory => do
      try
        let path ← IO.FS.realPath directory
        let entries ← path.readDir
        return entries.toList.map (·.fileName)
      catch _ => return []
    directoryExists := isDirectoryIO }

end Kerf.Command

def main (arguments : List String) : IO UInt32 := do
  let outcome ← Kerf.Command.run Kerf.Command.systemHost arguments
  IO.print outcome.stdout
  IO.eprint outcome.stderr
  return if outcome.failed then 1 else 0

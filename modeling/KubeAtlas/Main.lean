import KubeAtlas.CommandLine.Run
import Std.Time.DateTime.Timestamp
/-!
# The program

Reads the environment, the clock and the configuration file, runs the command line on them, and
writes what came of it. Nothing here carries requests, so every search ends with the report that the
provider does not answer; a host that has a connection runs `CommandLine.run` over its own.
-/

open KubeAtlas

def withoutConnection : Api.Transport Unit :=
  ⟨fun _ => throw (.outside (.connection "no connection")), fun _ => pure ()⟩

def variableNames : List String :=
  [Settings.keyVariable, Settings.secretVariable, SwitchConfig.pathVariable, "HOME"]

def readEnvironment : IO Environment := do
  let values ← variableNames.mapM fun name => do pure (name, ← IO.getEnv name)
  pure fun name => ((values.find? fun e => e.1 == name).bind fun e => e.2)

def fileState (path : String) : IO FileState := do
  if path.isEmpty then pure .missing
  else
    try pure (.file (← IO.FS.readBinFile path).toList)
    catch
      | .noFileOrDirectory .. => pure .missing
      | .inappropriateType .. => pure .directory
      | e => throw e

def configPath (env : Environment) (args : List String) : String :=
  let config := match CommandLine.Invocation.read args with
    | .ok i => i.options.config
    | .error _ => none
  match SwitchConfig.pathOf env config with
  | .ok path => path
  | .error _ => ""

def main (args : List String) : IO UInt32 := do
  let env ← readEnvironment
  let path := configPath env args
  let state ← fileState path
  let now := (← Std.Time.Timestamp.now).toSecondsSinceUnixEpoch.val
  let files := fun p => if p == path then state else FileState.missing
  let output ← IO.getStdout
  let errors ← IO.getStderr
  let provide := fun s => Store.provider s withoutConnection
  let (result, world) :=
    CommandLine.run env now files provide (← output.isTty) args ⟨(), Journal.quiet⟩
  output.putStr result.output
  errors.putStr (CommandLine.complaints (← errors.isTty) result.ending world.journal)
  match result.ending with
  | .misuse => errors.putStr CommandLine.usage
  | .crash f => errors.putStrLn f.message
  | _ => pure ()
  pure result.ending.code.toUInt32

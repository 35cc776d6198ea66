import Quorum.Demo

open Quorum

/-- The content of a file, if it can be read. -/
def contentOf (path : String) : IO (Option ByteArray) := do
  try return some (← IO.FS.readBinFile path) catch _ => return none

def main (arguments : List String) : IO UInt32 := do
  let transcript ← match CommandLine.parse arguments with
    | .error refusal => pure (Demo.refuse refusal)
    | .ok options => do
      let file ← match options.configPath with
        | some path => contentOf path
        | none => pure none
      pure (Demo.run options file)
  for line in transcript.lines do IO.println line
  if let some complaint := transcript.complaint then IO.eprintln complaint
  return transcript.exitCode

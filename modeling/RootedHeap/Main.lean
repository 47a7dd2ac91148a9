import RootedHeap.Demo.CommandLine

/-! # The command -/

open RootedHeap.Demo

/-- Read the command line, run what it asks for, and print the outcome. -/
def main (args : List String) : IO UInt32 := do
  match Args.parse args with
  | .error problem =>
    if problem.exitCode = 0 then IO.println problem.message else IO.eprintln problem.message
    return problem.exitCode.toUInt32
  | .ok args =>
    let output := args.run
    IO.print output.stdout
    IO.eprint output.stderr
    return output.exitCode.toUInt32

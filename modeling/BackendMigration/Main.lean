import BackendMigration.Command.Snapshot

/-! The command line: arguments are the command, a snapshot of its surroundings is read from the
standard input, and what becomes of it is printed. -/

def main (args : List String) : IO UInt32 := do
  let (exit, text) := BackendMigration.Command.runSnapshot args (← (← IO.getStdin).readToEnd)
  IO.print text
  return exit.toUInt32

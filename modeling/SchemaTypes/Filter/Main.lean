import SchemaTypes.Filter.Launch
import SchemaTypes.Main

/-! The program with the filters as its formatters. The filters stand in for the programs of a
system. The library knows programs as a `Launcher` only, and nothing in it depends on the filters. -/

def main (arguments : List String) : IO UInt32 :=
  SchemaTypes.Main.run SchemaTypes.Filter.launcher arguments

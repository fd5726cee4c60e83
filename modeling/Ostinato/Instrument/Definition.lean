import Ostinato.Check.Read

/-!
# Instrument definitions

A definition is what an instrument's file says: the type by which parts ask for it, its program, and
a table of pitches if it is percussion.
-/

namespace Ostinato

/-- An instrument as its file defines it. Programs count from 1. -/
structure Definition where
  type : Text
  program : Option Int
  pitchMap : Option (List (Text × Int))
  deriving DecidableEq, Repr

namespace Definition

/-- A definition is percussion if it has a pitch table, and for no other reason. -/
def isPercussion (d : Definition) : Bool := d.pitchMap.isSome

/-- A definition as a document spells it. A field may come under its long name too. -/
def ofValue (pool : Pool) (v : Value) : Checked Definition :=
  (v.asRecord pool "InstrumentDefinition").andThen fun entries =>
    Checked.both (fun type rest => Definition.mk type rest.1 rest.2)
      (Value.required Value.asText entries "type" ["type", "instrument_type"])
      (Checked.both Prod.mk
        (Value.optional (Value.asOptional (Value.asIntegerIn 1 128)) none entries ["program"])
        (Value.optional (Value.asOptional (Value.asTextDict pool (Value.asIntegerIn 0 127))) none
          entries ["pitchMap", "pitch_map"]))

/-- A pitch table as a mapping. -/
def pitchMapValue (table : List (Text × Int)) : Value :=
  .dict (table.map fun e => (.text e.1, .int e.2))

/-- The spelling of a definition; what is absent is left out. -/
def toValue (d : Definition) : Value :=
  .dict
    ((.text "type", .text d.type) ::
      (d.program.toList.map fun p => (.text "program", .int p)) ++
      (d.pitchMap.toList.map fun table => (.text "pitchMap", pitchMapValue table)))

/-- The document of a definition. -/
def toDocument (d : Definition) : Value := .dict [(.text "instrument", d.toValue)]

end Definition

end Ostinato

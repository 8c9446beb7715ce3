import Flowchart.Block.Record
import Flowchart.Fingerprint.Digest

/-!
# Fingerprints

A fingerprint is the digest of a text that lists all fields of all records. Hosts compare
fingerprints to see whether a program has changed.
-/

namespace Flowchart.Fingerprint

def stringText (s : String) : String := "\"" ++ s ++ "\""

/-- Named values between braces. -/
def groupText (fields : List (String × String)) : String :=
  "\x7b" ++ ",".intercalate (fields.map fun (name, value) => name ++ ":" ++ value) ++ "\x7d"

def dataText (d : Data) : String :=
  groupText
    [("ArrayIndex", stringText d.arrayIndex), ("ArrayName", stringText d.arrayName),
     ("ArraySize", stringText d.arraySize), ("Condition", stringText d.condition),
     ("Expression", stringText d.expression), ("FunctionName", stringText d.functionName),
     ("Initialization", stringText d.initialization), ("Iteration", stringText d.iteration),
     ("Operator", stringText d.operator), ("Value", stringText d.value),
     ("VariableName", stringText d.variableName)]

def inputsText (i : Inputs) : String :=
  groupText
    [("Index", stringText i.index), ("Left", stringText i.left), ("Right", stringText i.right),
     ("Value", stringText i.value)]

/-- The fields in alphabetical order, empty ones included. -/
def recordText (r : Record) : String :=
  groupText
    [("Category", stringText r.category), ("Data", dataText r.data),
     ("False", stringText r.onFalse), ("Inputs", inputsText r.inputs),
     ("InstanceID", stringText r.id), ("Next", stringText r.next),
     ("Previous", stringText r.previous), ("Template", stringText r.template),
     ("Title", stringText r.title), ("True", stringText r.onTrue), ("Type", stringText r.type)]

def serial (records : List Record) : String :=
  "[" ++ ",".intercalate (records.map recordText) ++ "]"

end Flowchart.Fingerprint

namespace Flowchart

/-- The version of the listing, and its digest. -/
def fingerprint (records : List Record) : String :=
  "v1_" ++ Fingerprint.digestText (Fingerprint.serial records)

end Flowchart

/-
Fingerprints of values.

A value is traced as bytes and the digest of its trace is its fingerprint.  Lists
and tuples are traced alike, as are texts and bytes; the order in a dictionary or a
set does not matter.  Floating-point numbers count to six digits, and a record is
the dictionary of its fields.
-/
import Owl.Bench.Value
import Owl.Text.Digest
import Owl.Text.Utf8

namespace Owl.Bench

def traceFloat (x : Binary64) : String := ((x.significant 6).add (.zero false)).text

def traceHead (mark : String) (count : Nat) : List UInt8 := Text.encode (mark ++ toString count)

/-- The traces of entries in the order of their keys' fingerprints. -/
def traceSorted (entries : List (String × List UInt8)) : List UInt8 :=
  (entries.mergeSort fun a b => a.1 ≤ b.1).flatMap (·.2)

namespace Value

mutual

def trace : Value → List UInt8
  | float x => Text.encode (traceFloat x)
  | complex re im => Text.encode ("c" ++ traceFloat re ++ traceFloat im)
  | text s => Text.encode ("s" ++ s)
  | bytes _ bs => Text.encode "s" ++ bs
  | list xs => traceHead "L" xs.length ++ (traceAll xs).flatten
  | tuple xs => traceHead "L" xs.length ++ (traceAll xs).flatten
  | set _ xs =>
    traceHead "S" xs.length ++
      Text.encode (String.join (((traceAll xs).map Text.digest).mergeSort fun a b => a ≤ b))
  | dict entries => traceHead "D" entries.length ++ traceSorted (traceEntries entries)
  | record _ fields => traceHead "D" fields.length ++ traceSorted (traceFields fields)
  | object => Text.encode "<builtins.object>"
  | none => Text.encode "None"
  | bool b => Text.encode (if b then "True" else "False")
  | int i => Text.encode (toString i)
  | scalar _ written _ => Text.encode written

def traceAll : List Value → List (List UInt8)
  | [] => []
  | x :: xs => x.trace :: traceAll xs

/-- The traces of some entries, each with the fingerprint of its key. -/
def traceEntries : List (Value × Value) → List (String × List UInt8)
  | [] => []
  | (key, x) :: entries =>
    let k := key.trace
    (Text.digest k, k ++ x.trace) :: traceEntries entries

/-- The traces of some fields, each with the fingerprint of its name. -/
def traceFields : List (String × Value) → List (String × List UInt8)
  | [] => []
  | (name, x) :: fields =>
    let k := Text.encode ("s" ++ name)
    (Text.digest k, k ++ x.trace) :: traceFields fields

end

def fingerprint (x : Value) : String := Text.digest x.trace

end Value

end Owl.Bench

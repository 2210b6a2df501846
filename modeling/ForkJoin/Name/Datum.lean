import ForkJoin.Failure

/-!
# Names as data

The data that names are written as, and the names that data are used as. Data with parts are no
names.
-/

namespace ForkJoin.Name

def toDatum : Name → Datum
  | .text s => .text s
  | .null => .null
  | .truth b => .bool b
  | .whole n => .int n
  | .fraction bits => .float (Float.ofBits bits)

/-- The name that a datum is used as. -/
def ofDatum (d : Datum) : Except Fault Name :=
  match d with
  | .text s => .ok (.text s)
  | .null => .ok .null
  | .bool b => .ok (.truth b)
  | .int n => .ok (.whole n)
  | .float x => .ok (.fraction x.toBits)
  | d => .error (.noKey d.kindName)

@[simp] theorem ofDatum_text (s : String) : ofDatum (.text s) = .ok (.text s) := rfl

def ofData : List Datum → Except Fault (List Name)
  | [] => .ok []
  | d :: ds => do
    let name ← ofDatum d
    let names ← ofData ds
    return name :: names

end ForkJoin.Name

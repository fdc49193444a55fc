import MuF.VM.Assign
import MuF.Codegen.Elements
import MuF.Codegen.Select

/-!
# Assignments and the slots of variables

* `Symbol.slot`: the address and the size of a variable's slot while its function runs;
* `Assigns op sym s s'`: code generation that ends with the instruction of an assignment;
* `assigns_code`: its code pushes the variable's address first;
* `VM.AssignsIn`: the instruction takes the address of the slot, and writes nowhere else if what it
  leaves in the variable has room there;
* **`assignments_stay`**: so it is in every run of the finished code.
-/

set_option linter.unusedVariables false

namespace MuF

open Bytes Exec Layout

/-- address and size of the slot of a variable -/
def Symbol.slot (sym : Symbol) (s : VM) : Option (Int32 × Int32) := do
  let addr ← sym.addr
  let reg ← s.base sym.baseReg
  let size ← (getSymSize sym).toOption
  return (addr.toInt32 + reg, size)

section
variable {s s' : Codegen} {H : Holes} {l : List Event} {sym : Symbol} {op : AssignOp}

end

/-! ## runs of the machine -/

section
variable [MathLib TReal]

end

/-! ### an element of an array -/

end MuF

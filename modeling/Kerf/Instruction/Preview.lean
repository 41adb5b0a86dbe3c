import Kerf.Instruction.Basic
import Kerf.Stock.Field

/-!
# Previewing the stock

The stock that an instruction mentions, each form once.
-/

set_option autoImplicit false

namespace Kerf

open Kerf.Stock (Form Bounds)

namespace Instruction

/-- All mentions of stock in order: the default, every operation and its paths, and the motions
before and after them. -/
def mentions (instruction : Instruction) : List Form :=
  instruction.form.toList ++
    (instruction.operations.flatMap fun operation =>
      operation.form.toList ++ operation.paths.filterMap (·.form)) ++
    (instruction.start.bind (·.form)).toList ++ (instruction.finish.bind (·.form)).toList

def forms (instruction : Instruction) : List Form :=
  instruction.mentions.foldl
    (fun seen form => if seen.any (·.same form) then seen else seen ++ [form]) []

structure NoStock where
  deriving DecidableEq, Repr

def NoStock.message (_ : NoStock) : String := "tessellate: instruction has no stock"

/-- The boxes around the forms of an instruction, or around their safety bubbles, and the box around
all of them. -/
def preview (instruction : Instruction) (bubble : Bool) :
    Except NoStock (List Bounds × Bounds) :=
  match instruction.forms.map (·.enclosure bubble) with
  | [] => .error {}
  | first :: rest => .ok (first :: rest, rest.foldl Bounds.union first)

end Instruction

end Kerf

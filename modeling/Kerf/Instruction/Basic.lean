import Kerf.Machine.Basic
import Kerf.Toolpath.Path

/-!
# Instructions

One complete job for one machine.
-/

set_option autoImplicit false

namespace Kerf

open Kerf.Stock (Form)

/-- A job: its operations in order, optional motions before and after them, and what holds where
they leave the tool or stock open. -/
structure Instruction where
  name : String
  machine : Option Machine := none
  operations : List Operation := []
  start : Option Path := none
  finish : Option Path := none
  tool : Option Tool := none
  form : Option Form := none

end Kerf

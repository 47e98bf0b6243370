import Mathlib.Data.Rat.Defs

/-! The sales of the machines, a row for each day, machine and product of a source. -/

namespace Mydon.Sales

/-- A row of `sale`. -/
structure Sale where
  source : String
  dt : ℤ
  machineSerial : String
  product : String
  machineId : Option ℕ
  qty : ℚ
  amount : ℚ
  fetchedAt : ℤ
  deriving DecidableEq

end Mydon.Sales

import Mathlib.Data.Nat.Notation

/-!
# Identifiers

The names every part of the monitor shares: the identifier of an instance and the index of a core.
-/

namespace Umm

/-- `umi::id`: the identifier of an instance. -/
abbrev UmiId := ℕ

/-- `umi::core`: the index of a core. -/
abbrev UmiCore := ℕ

/-- `umi::null_id`: the identifier of no instance. -/
def nullId : UmiId := 0

end Umm

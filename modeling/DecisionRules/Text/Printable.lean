import DecisionRules.Text.Extending
import DecisionRules.Text.Unassigned

/-! Characters that are shown as themselves in a literal: those that can be seen, and told
from the one before them. All tables are those of Unicode 17.0, their runs ascending. -/
namespace DecisionRules.Text

/-- Runs of characters without a look, as first and last: the General_Category Cc, Cf, Co,
Zl, Zp and Zs, without the space. -/
def invisibleRuns : List (Nat × Nat) := [
  (0x0, 0x1F), (0x7F, 0xA0), (0xAD, 0xAD), (0x600, 0x605), (0x61C, 0x61C), (0x6DD, 0x6DD),
  (0x70F, 0x70F), (0x890, 0x891), (0x8E2, 0x8E2), (0x1680, 0x1680), (0x180E, 0x180E),
  (0x2000, 0x200F), (0x2028, 0x202F), (0x205F, 0x2064), (0x2066, 0x206F), (0x3000, 0x3000),
  (0xE000, 0xF8FF), (0xFEFF, 0xFEFF), (0xFFF9, 0xFFFB), (0x110BD, 0x110BD), (0x110CD, 0x110CD),
  (0x13430, 0x1343F), (0x1BCA0, 0x1BCA3), (0x1D173, 0x1D17A), (0xE0001, 0xE0001),
  (0xE0020, 0xE007F), (0xF0000, 0xFFFFD), (0x100000, 0x10FFFD)]

/-- The Hangul fillers: letters that are drawn as nothing. The other characters with the
property Default_Ignorable_Code_Point are invisible, extending or unassigned already. -/
def fillerRuns : List (Nat × Nat) := [
  (0x115F, 0x1160), (0x3164, 0x3164), (0xFFA0, 0xFFA0)]

def inRuns (runs : List (Nat × Nat)) (n : Nat) : Bool :=
  runs.any fun (first, last) => first ≤ n && n ≤ last

def isPrintable (c : Char) : Bool :=
  let n := c.toNat
  !inRuns invisibleRuns n && !inRuns fillerRuns n && !inRuns extendingRuns n
    && !inRuns unassignedRuns n

end DecisionRules.Text

import OrderedStore.Text.Mark
import OrderedStore.Text.Unassigned

/-!
# Characters that are not shown

A character is shown as itself unless nothing would be seen of it: it has no ink, no meaning yet, or
only changes the look of the character before it.
-/

namespace OrderedStore.Text

/-- Control and format characters, separators other than the space, and private use. -/
def blankRanges : Ranges :=
  [(0x0, 0x1F), (0x7F, 0xA0), (0xAD, 0xAD), (0x600, 0x605), (0x61C, 0x61C), (0x6DD, 0x6DD),
   (0x70F, 0x70F), (0x890, 0x891), (0x8E2, 0x8E2), (0x1680, 0x1680), (0x180E, 0x180E),
   (0x2000, 0x200F), (0x2028, 0x202F), (0x205F, 0x2064), (0x2066, 0x206F), (0x3000, 0x3000),
   (0xE000, 0xF8FF), (0xFEFF, 0xFEFF), (0xFFF9, 0xFFFB), (0x110BD, 0x110BD), (0x110CD, 0x110CD),
   (0x13430, 0x1343F), (0x1BCA0, 0x1BCA3), (0x1D173, 0x1D17A), (0xE0001, 0xE0001),
   (0xE0020, 0xE007F), (0xF0000, 0xFFFFD), (0x100000, 0x10FFFD)]

/-- Letters without ink, which only keep a place. -/
def fillerRanges : Ranges :=
  [(0x115F, 0x1160), (0x3164, 0x3164), (0xFFA0, 0xFFA0)]

/-- Whether a character is shown as itself. -/
def isShown (c : Char) : Bool :=
  !(blankRanges.contain c.toNat || fillerRanges.contain c.toNat || markRanges.contain c.toNat ||
    unassignedRanges.contain c.toNat)

end OrderedStore.Text

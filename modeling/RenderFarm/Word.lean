/-!
# RenderFarm.Word

Counters and clocks of the farm are 64-bit words: an addition whose sum is no word stops the
program, durations reported in words are clamped.
-/

namespace RenderFarm
namespace Word

/-- The number of distinct words. -/
abbrev size : Nat := 0x10000000000000000

/-- The largest word. -/
abbrev top : Nat := 0xFFFFFFFFFFFFFFFF

/-- The number of words that are not negative when they are read with a sign. -/
abbrev half : Nat := 0x8000000000000000

/-- The number of words of 32 bits. -/
abbrev size32 : Nat := 0x100000000

/-- The number of words of 16 bits. -/
abbrev size16 : Nat := 0x10000

/-- The word nearest to `n`. -/
def clamp (n : Nat) : Nat := min n top

end Word
end RenderFarm

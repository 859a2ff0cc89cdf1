/-! # Widths of characters -/

namespace MapCatalog

namespace Text

/-- The first and the last of the characters of double width, in order. -/
def wideRanges : List (Nat × Nat) :=
  [(0x1100, 0x115F), (0x231A, 0x231B), (0x2329, 0x232A), (0x23E9, 0x23EC), (0x25FD, 0x25FE),
   (0x2614, 0x2615), (0x2648, 0x2653), (0x26AA, 0x26AB), (0x2753, 0x2755), (0x2795, 0x2797),
   (0x2B1B, 0x2B1C), (0x2E80, 0x303E), (0x3041, 0x3247), (0x3250, 0x4DBF), (0x4E00, 0xA4C6),
   (0xA960, 0xA97C), (0xAC00, 0xD7A3), (0xF900, 0xFAFF), (0xFE10, 0xFE19), (0xFE30, 0xFE6B),
   (0xFF01, 0xFF60), (0xFFE0, 0xFFE6), (0x16FE0, 0x1B2FB), (0x1F200, 0x1F320),
   (0x1F32D, 0x1F335), (0x1F337, 0x1F37C), (0x1F37E, 0x1F393), (0x1F3A0, 0x1F3CA),
   (0x1F3E0, 0x1F3F0), (0x1F3F8, 0x1F43E), (0x1F442, 0x1F4FC), (0x1F4FF, 0x1F53D),
   (0x1F550, 0x1F567), (0x1F5FB, 0x1F64F), (0x1F680, 0x1F6C5), (0x1F7E0, 0x1F7EB),
   (0x1F90C, 0x1F9FF), (0x1FA70, 0x1FAF6), (0x20000, 0x3FFFD)]

/-- The first and the last of the characters without width, in order. -/
def joinedRanges : List (Nat × Nat) :=
  [(0x0300, 0x036F), (0x0483, 0x0489), (0x0591, 0x05BD), (0x064B, 0x065F), (0x1160, 0x11FF),
   (0x1AB0, 0x1ACE), (0x1DC0, 0x1DFF), (0x200B, 0x200F), (0x2060, 0x2064), (0x20D0, 0x20F0),
   (0x302A, 0x302D), (0x3099, 0x309A), (0xFE00, 0xFE0F), (0xFE20, 0xFE2F), (0xFEFF, 0xFEFF),
   (0xE0100, 0xE01EF)]

def inRanges (ranges : List (Nat × Nat)) (n : Nat) : Bool :=
  ranges.any fun range => range.1 ≤ n && n ≤ range.2

def charWidth (c : Char) : Nat :=
  if c.toNat < 0x300 then 1
  else if inRanges joinedRanges c.toNat then 0
  else if inRanges wideRanges c.toNat then 2
  else 1

def width (chars : List Char) : Nat :=
  chars.foldl (fun columns c => columns + charWidth c) 0

end Text

end MapCatalog

import RtlBridge.Text.CodeRange

/-! Letter case data (Unicode 14.0): the lower-case forms of single characters, and the two classes
that decide which form a final sigma takes. -/

namespace RtlBridge.Text

/-- Every `step`-th code point from `first` to `last` has its lower-case form `shift` further on. -/
structure CaseRun where
  first : Nat
  last : Nat
  step : Nat
  shift : Int

/-- Upper-case letters outside ASCII whose lower-case form is one character. -/
def lowerRuns : List CaseRun := [
  ⟨0xC0, 0xD6, 1, 32⟩, ⟨0xD8, 0xDE, 1, 32⟩, ⟨0x100, 0x12E, 2, 1⟩, ⟨0x132, 0x136, 2, 1⟩,
  ⟨0x139, 0x147, 2, 1⟩, ⟨0x14A, 0x176, 2, 1⟩, ⟨0x178, 0x178, 1, -121⟩, ⟨0x179, 0x17D, 2, 1⟩,
  ⟨0x181, 0x181, 1, 210⟩, ⟨0x182, 0x184, 2, 1⟩, ⟨0x186, 0x186, 1, 206⟩, ⟨0x187, 0x187, 1, 1⟩,
  ⟨0x189, 0x18A, 1, 205⟩, ⟨0x18B, 0x18B, 1, 1⟩, ⟨0x18E, 0x18E, 1, 79⟩, ⟨0x18F, 0x18F, 1, 202⟩,
  ⟨0x190, 0x190, 1, 203⟩, ⟨0x191, 0x191, 1, 1⟩, ⟨0x193, 0x193, 1, 205⟩, ⟨0x194, 0x194, 1, 207⟩,
  ⟨0x196, 0x196, 1, 211⟩, ⟨0x197, 0x197, 1, 209⟩, ⟨0x198, 0x198, 1, 1⟩, ⟨0x19C, 0x19C, 1, 211⟩,
  ⟨0x19D, 0x19D, 1, 213⟩, ⟨0x19F, 0x19F, 1, 214⟩, ⟨0x1A0, 0x1A4, 2, 1⟩, ⟨0x1A6, 0x1A6, 1, 218⟩,
  ⟨0x1A7, 0x1A7, 1, 1⟩, ⟨0x1A9, 0x1A9, 1, 218⟩, ⟨0x1AC, 0x1AC, 1, 1⟩, ⟨0x1AE, 0x1AE, 1, 218⟩,
  ⟨0x1AF, 0x1AF, 1, 1⟩, ⟨0x1B1, 0x1B2, 1, 217⟩, ⟨0x1B3, 0x1B5, 2, 1⟩, ⟨0x1B7, 0x1B7, 1, 219⟩,
  ⟨0x1B8, 0x1B8, 1, 1⟩, ⟨0x1BC, 0x1BC, 1, 1⟩, ⟨0x1C4, 0x1C4, 1, 2⟩, ⟨0x1C5, 0x1C5, 1, 1⟩,
  ⟨0x1C7, 0x1C7, 1, 2⟩, ⟨0x1C8, 0x1C8, 1, 1⟩, ⟨0x1CA, 0x1CA, 1, 2⟩, ⟨0x1CB, 0x1DB, 2, 1⟩,
  ⟨0x1DE, 0x1EE, 2, 1⟩, ⟨0x1F1, 0x1F1, 1, 2⟩, ⟨0x1F2, 0x1F4, 2, 1⟩, ⟨0x1F6, 0x1F6, 1, -97⟩,
  ⟨0x1F7, 0x1F7, 1, -56⟩, ⟨0x1F8, 0x21E, 2, 1⟩, ⟨0x220, 0x220, 1, -130⟩, ⟨0x222, 0x232, 2, 1⟩,
  ⟨0x23A, 0x23A, 1, 10795⟩, ⟨0x23B, 0x23B, 1, 1⟩, ⟨0x23D, 0x23D, 1, -163⟩,
  ⟨0x23E, 0x23E, 1, 10792⟩, ⟨0x241, 0x241, 1, 1⟩, ⟨0x243, 0x243, 1, -195⟩, ⟨0x244, 0x244, 1, 69⟩,
  ⟨0x245, 0x245, 1, 71⟩, ⟨0x246, 0x24E, 2, 1⟩, ⟨0x370, 0x372, 2, 1⟩, ⟨0x376, 0x376, 1, 1⟩,
  ⟨0x37F, 0x37F, 1, 116⟩, ⟨0x386, 0x386, 1, 38⟩, ⟨0x388, 0x38A, 1, 37⟩, ⟨0x38C, 0x38C, 1, 64⟩,
  ⟨0x38E, 0x38F, 1, 63⟩, ⟨0x391, 0x3A1, 1, 32⟩, ⟨0x3A3, 0x3AB, 1, 32⟩, ⟨0x3CF, 0x3CF, 1, 8⟩,
  ⟨0x3D8, 0x3EE, 2, 1⟩, ⟨0x3F4, 0x3F4, 1, -60⟩, ⟨0x3F7, 0x3F7, 1, 1⟩, ⟨0x3F9, 0x3F9, 1, -7⟩,
  ⟨0x3FA, 0x3FA, 1, 1⟩, ⟨0x3FD, 0x3FF, 1, -130⟩, ⟨0x400, 0x40F, 1, 80⟩, ⟨0x410, 0x42F, 1, 32⟩,
  ⟨0x460, 0x480, 2, 1⟩, ⟨0x48A, 0x4BE, 2, 1⟩, ⟨0x4C0, 0x4C0, 1, 15⟩, ⟨0x4C1, 0x4CD, 2, 1⟩,
  ⟨0x4D0, 0x52E, 2, 1⟩, ⟨0x531, 0x556, 1, 48⟩, ⟨0x10A0, 0x10C5, 1, 7264⟩,
  ⟨0x10C7, 0x10C7, 1, 7264⟩, ⟨0x10CD, 0x10CD, 1, 7264⟩, ⟨0x13A0, 0x13EF, 1, 38864⟩,
  ⟨0x13F0, 0x13F5, 1, 8⟩, ⟨0x1C90, 0x1CBA, 1, -3008⟩, ⟨0x1CBD, 0x1CBF, 1, -3008⟩,
  ⟨0x1E00, 0x1E94, 2, 1⟩, ⟨0x1E9E, 0x1E9E, 1, -7615⟩, ⟨0x1EA0, 0x1EFE, 2, 1⟩,
  ⟨0x1F08, 0x1F0F, 1, -8⟩, ⟨0x1F18, 0x1F1D, 1, -8⟩, ⟨0x1F28, 0x1F2F, 1, -8⟩,
  ⟨0x1F38, 0x1F3F, 1, -8⟩, ⟨0x1F48, 0x1F4D, 1, -8⟩, ⟨0x1F59, 0x1F5F, 2, -8⟩,
  ⟨0x1F68, 0x1F6F, 1, -8⟩, ⟨0x1F88, 0x1F8F, 1, -8⟩, ⟨0x1F98, 0x1F9F, 1, -8⟩,
  ⟨0x1FA8, 0x1FAF, 1, -8⟩, ⟨0x1FB8, 0x1FB9, 1, -8⟩, ⟨0x1FBA, 0x1FBB, 1, -74⟩,
  ⟨0x1FBC, 0x1FBC, 1, -9⟩, ⟨0x1FC8, 0x1FCB, 1, -86⟩, ⟨0x1FCC, 0x1FCC, 1, -9⟩,
  ⟨0x1FD8, 0x1FD9, 1, -8⟩, ⟨0x1FDA, 0x1FDB, 1, -100⟩, ⟨0x1FE8, 0x1FE9, 1, -8⟩,
  ⟨0x1FEA, 0x1FEB, 1, -112⟩, ⟨0x1FEC, 0x1FEC, 1, -7⟩, ⟨0x1FF8, 0x1FF9, 1, -128⟩,
  ⟨0x1FFA, 0x1FFB, 1, -126⟩, ⟨0x1FFC, 0x1FFC, 1, -9⟩, ⟨0x2126, 0x2126, 1, -7517⟩,
  ⟨0x212A, 0x212A, 1, -8383⟩, ⟨0x212B, 0x212B, 1, -8262⟩, ⟨0x2132, 0x2132, 1, 28⟩,
  ⟨0x2160, 0x216F, 1, 16⟩, ⟨0x2183, 0x2183, 1, 1⟩, ⟨0x24B6, 0x24CF, 1, 26⟩,
  ⟨0x2C00, 0x2C2F, 1, 48⟩, ⟨0x2C60, 0x2C60, 1, 1⟩, ⟨0x2C62, 0x2C62, 1, -10743⟩,
  ⟨0x2C63, 0x2C63, 1, -3814⟩, ⟨0x2C64, 0x2C64, 1, -10727⟩, ⟨0x2C67, 0x2C6B, 2, 1⟩,
  ⟨0x2C6D, 0x2C6D, 1, -10780⟩, ⟨0x2C6E, 0x2C6E, 1, -10749⟩, ⟨0x2C6F, 0x2C6F, 1, -10783⟩,
  ⟨0x2C70, 0x2C70, 1, -10782⟩, ⟨0x2C72, 0x2C72, 1, 1⟩, ⟨0x2C75, 0x2C75, 1, 1⟩,
  ⟨0x2C7E, 0x2C7F, 1, -10815⟩, ⟨0x2C80, 0x2CE2, 2, 1⟩, ⟨0x2CEB, 0x2CED, 2, 1⟩,
  ⟨0x2CF2, 0x2CF2, 1, 1⟩, ⟨0xA640, 0xA66C, 2, 1⟩, ⟨0xA680, 0xA69A, 2, 1⟩, ⟨0xA722, 0xA72E, 2, 1⟩,
  ⟨0xA732, 0xA76E, 2, 1⟩, ⟨0xA779, 0xA77B, 2, 1⟩, ⟨0xA77D, 0xA77D, 1, -35332⟩,
  ⟨0xA77E, 0xA786, 2, 1⟩, ⟨0xA78B, 0xA78B, 1, 1⟩, ⟨0xA78D, 0xA78D, 1, -42280⟩,
  ⟨0xA790, 0xA792, 2, 1⟩, ⟨0xA796, 0xA7A8, 2, 1⟩, ⟨0xA7AA, 0xA7AA, 1, -42308⟩,
  ⟨0xA7AB, 0xA7AB, 1, -42319⟩, ⟨0xA7AC, 0xA7AC, 1, -42315⟩, ⟨0xA7AD, 0xA7AD, 1, -42305⟩,
  ⟨0xA7AE, 0xA7AE, 1, -42308⟩, ⟨0xA7B0, 0xA7B0, 1, -42258⟩, ⟨0xA7B1, 0xA7B1, 1, -42282⟩,
  ⟨0xA7B2, 0xA7B2, 1, -42261⟩, ⟨0xA7B3, 0xA7B3, 1, 928⟩, ⟨0xA7B4, 0xA7C2, 2, 1⟩,
  ⟨0xA7C4, 0xA7C4, 1, -48⟩, ⟨0xA7C5, 0xA7C5, 1, -42307⟩, ⟨0xA7C6, 0xA7C6, 1, -35384⟩,
  ⟨0xA7C7, 0xA7C9, 2, 1⟩, ⟨0xA7D0, 0xA7D0, 1, 1⟩, ⟨0xA7D6, 0xA7D8, 2, 1⟩, ⟨0xA7F5, 0xA7F5, 1, 1⟩,
  ⟨0xFF21, 0xFF3A, 1, 32⟩, ⟨0x10400, 0x10427, 1, 40⟩, ⟨0x104B0, 0x104D3, 1, 40⟩,
  ⟨0x10570, 0x10594, 2, 39⟩, ⟨0x10571, 0x10579, 2, 39⟩, ⟨0x1057D, 0x10589, 2, 39⟩,
  ⟨0x1058D, 0x10591, 2, 39⟩, ⟨0x10595, 0x10595, 1, 39⟩, ⟨0x10C80, 0x10CB2, 1, 64⟩,
  ⟨0x118A0, 0x118BF, 1, 32⟩, ⟨0x16E40, 0x16E5F, 1, 32⟩, ⟨0x1E900, 0x1E921, 1, 34⟩]

def casedRuns : List CodeRange := CodeRange.ofSteps 0 [
  170, 0, 11, 0, 5, 0, 6, 22, 2, 30, 2, 194, 2, 3, 5, 207, 2, 26, 193, 3, 3, 1, 4, 2, 2, 0, 7, 0, 2, 2, 2, 0,
  2, 19, 2, 82, 2, 138, 9, 165, 2, 37, 10, 40, 2840, 37, 2, 0, 6, 0, 3, 42, 3, 2, 673, 85, 3, 5, 2179, 8, 8,
  42, 3, 2, 65, 43, 64, 12, 2, 33, 102, 277, 3, 5, 3, 37, 3, 5, 3, 7, 2, 0, 2, 0, 2, 0, 2, 30, 3, 52, 2, 6, 2,
  0, 4, 2, 2, 6, 4, 3, 3, 5, 5, 12, 6, 2, 2, 6, 262, 0, 5, 0, 3, 9, 2, 0, 4, 4, 7, 0, 2, 0, 2, 0, 2, 3, 2, 5,
  5, 0, 3, 3, 6, 4, 5, 0, 18, 31, 4, 1, 818, 51, 1815, 123, 3, 102, 7, 3, 4, 1, 13, 37, 2, 0, 6, 0, 30995, 45,
  19, 27, 135, 77, 2, 22, 4, 3, 2, 58, 6, 1, 2, 0, 2, 4, 28, 1, 4, 0, 822, 42, 6, 8, 8, 79, 20289, 6, 13, 4,
  1034, 25, 7, 25, 1190, 79, 97, 35, 5, 35, 117, 10, 2, 14, 2, 6, 2, 1, 2, 10, 2, 14, 2, 6, 2, 1, 1732, 50,
  14, 50, 2990, 63, 21857, 63, 25985, 84, 2, 70, 2, 1, 3, 0, 3, 1, 3, 3, 2, 11, 2, 0, 2, 6, 2, 64, 2, 3, 3, 7,
  2, 6, 2, 27, 2, 3, 2, 4, 2, 0, 4, 6, 2, 339, 3, 24, 2, 24, 2, 30, 2, 24, 2, 30, 2, 24, 2, 30, 2, 24, 2, 30,
  2, 24, 2, 7, 1845, 9, 2, 19, 2530, 67, 2029, 25, 7, 25, 7, 25]

/-- Characters outside ASCII that stand inside a word without being letters of it: accents,
apostrophes, format characters. -/
def caseIgnorableRuns : List CodeRange := CodeRange.ofSteps 0 [
  168, 0, 5, 0, 2, 0, 5, 0, 3, 1, 504, 191, 5, 1, 5, 0, 10, 1, 2, 0, 252, 6, 208, 0, 6, 0, 50, 44, 2, 0, 2, 1,
  2, 1, 2, 0, 45, 0, 12, 5, 11, 10, 2, 0, 36, 0, 11, 20, 17, 0, 102, 7, 2, 9, 2, 3, 34, 0, 2, 0, 31, 26, 92,
  10, 59, 10, 5, 0, 3, 0, 25, 23, 44, 2, 45, 0, 8, 1, 7, 7, 42, 57, 56, 0, 2, 0, 5, 7, 5, 0, 4, 6, 11, 1, 14,
  0, 16, 0, 59, 0, 5, 3, 9, 0, 21, 1, 27, 0, 3, 1, 58, 0, 5, 1, 5, 1, 3, 2, 4, 0, 31, 1, 4, 0, 12, 1, 58, 0,
  5, 4, 2, 1, 5, 0, 21, 1, 23, 5, 2, 0, 59, 0, 3, 0, 2, 3, 9, 0, 8, 1, 12, 1, 31, 0, 62, 0, 13, 0, 51, 0, 4,
  0, 56, 0, 2, 2, 6, 2, 2, 3, 8, 1, 12, 1, 30, 0, 59, 0, 3, 0, 7, 0, 6, 1, 21, 1, 29, 1, 58, 1, 5, 3, 9, 0,
  21, 1, 30, 0, 73, 0, 8, 2, 2, 0, 91, 0, 3, 6, 12, 8, 99, 0, 3, 8, 10, 0, 2, 5, 75, 1, 28, 0, 2, 0, 2, 0, 56,
  13, 2, 4, 2, 1, 6, 10, 2, 35, 10, 0, 103, 3, 2, 5, 2, 1, 3, 1, 26, 1, 5, 2, 17, 3, 14, 0, 3, 1, 7, 0, 16, 0,
  95, 0, 609, 2, 947, 2, 30, 1, 31, 1, 31, 1, 65, 1, 2, 6, 9, 0, 3, 10, 4, 0, 6, 0, 46, 4, 52, 0, 66, 1, 35,
  0, 119, 2, 5, 1, 10, 0, 7, 2, 220, 1, 3, 0, 59, 0, 2, 6, 2, 0, 2, 0, 3, 7, 7, 9, 3, 0, 40, 0, 9, 30, 50, 3,
  49, 0, 2, 4, 2, 0, 6, 0, 41, 8, 13, 1, 33, 3, 3, 1, 2, 2, 57, 0, 2, 1, 4, 0, 2, 2, 59, 7, 3, 1, 65, 5, 83,
  2, 2, 12, 2, 6, 5, 0, 7, 0, 4, 1, 51, 62, 14, 0, 35, 100, 446, 0, 2, 2, 12, 2, 14, 2, 14, 2, 14, 1, 13, 4,
  9, 1, 11, 0, 3, 0, 3, 4, 50, 4, 2, 9, 2, 0, 14, 0, 17, 12, 52, 32, 2956, 1, 114, 2, 126, 0, 16, 0, 97, 31,
  48, 0, 470, 0, 37, 3, 4, 4, 6, 0, 94, 5, 94, 2, 28439, 0, 1251, 5, 271, 0, 99, 3, 2, 9, 2, 0, 29, 3, 81, 1,
  15, 33, 79, 0, 24, 2, 104, 2, 4, 1, 9, 0, 4, 0, 5, 0, 26, 1, 6, 0, 152, 1, 27, 17, 14, 0, 39, 7, 26, 10, 47,
  2, 49, 0, 3, 3, 3, 1, 18, 0, 22, 1, 67, 5, 3, 1, 3, 1, 13, 0, 9, 0, 36, 0, 12, 0, 52, 0, 2, 2, 3, 1, 6, 1,
  2, 0, 28, 0, 15, 1, 6, 1, 2, 0, 101, 4, 10, 2, 122, 0, 3, 0, 5, 0, 20273, 0, 148, 16, 574, 15, 4, 0, 13, 15,
  35, 0, 3, 0, 170, 0, 8, 0, 7, 0, 12, 0, 36, 0, 2, 0, 48, 0, 46, 1, 68, 0, 22, 2, 514, 0, 227, 0, 150, 4,
  1030, 5, 2, 41, 2, 8, 583, 2, 2, 1, 6, 3, 41, 2, 5, 0, 166, 1, 574, 3, 388, 1, 154, 10, 50, 3, 124, 0, 55,
  14, 42, 0, 3, 1, 11, 2, 50, 3, 3, 1, 3, 0, 5, 0, 11, 0, 51, 2, 37, 4, 2, 7, 63, 0, 13, 1, 53, 8, 11, 3, 3,
  0, 96, 2, 3, 0, 2, 1, 7, 0, 161, 0, 4, 7, 22, 1, 58, 1, 4, 0, 38, 6, 4, 4, 196, 7, 3, 2, 2, 0, 24, 0, 85, 5,
  2, 0, 5, 1, 2, 1, 239, 3, 7, 1, 2, 1, 28, 1, 86, 7, 3, 0, 2, 1, 107, 0, 2, 0, 3, 5, 2, 0, 102, 2, 3, 3, 2,
  4, 260, 8, 2, 1, 257, 1, 2, 0, 5, 0, 145, 3, 3, 1, 5, 0, 33, 9, 41, 5, 3, 3, 9, 0, 10, 5, 3, 2, 47, 12, 2,
  1, 407, 6, 2, 5, 2, 0, 83, 21, 3, 6, 2, 1, 2, 1, 123, 5, 4, 0, 2, 1, 2, 6, 2, 0, 73, 1, 4, 0, 2, 0, 348, 1,
  5436, 8, 14008, 4, 60, 6, 10, 3, 1036, 0, 64, 16, 65, 1, 2, 1, 16396, 3, 2, 6, 2, 1, 3231, 1, 2, 3, 4701,
  45, 3, 22, 545, 2, 10, 15, 3, 6, 31, 3, 149, 2, 1980, 54, 5, 49, 9, 0, 15, 0, 23, 4, 2, 14, 1361, 6, 2, 16,
  3, 6, 2, 1, 2, 4, 262, 13, 369, 0, 62, 3, 1505, 6, 110, 7, 2736, 4, 789506, 0, 31, 95, 129, 239]

end RtlBridge.Text

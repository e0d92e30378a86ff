import SchemaTypes.Text.CharRange

/-!
# Upper case

Which characters are capital letters, and how a text is written in capitals. Most letters have one
capital; a few, such as the sharp s and the ligatures, are written with two or three letters.
-/

namespace SchemaTypes.Text

/-- Capital letters above ASCII that stand in a row. -/
def capitalRanges : List (Nat × Nat) :=
  [
    (0xC0, 0xD6), (0xD8, 0xDE), (0x178, 0x179), (0x17B, 0x17B), (0x17D, 0x17D), (0x181, 0x182),
    (0x184, 0x184), (0x186, 0x187), (0x189, 0x18B), (0x18E, 0x191), (0x193, 0x194),
    (0x196, 0x198), (0x19C, 0x19D), (0x19F, 0x1A0), (0x1A2, 0x1A2), (0x1A4, 0x1A4),
    (0x1A6, 0x1A7), (0x1A9, 0x1A9), (0x1AC, 0x1AC), (0x1AE, 0x1AF), (0x1B1, 0x1B3),
    (0x1B5, 0x1B5), (0x1B7, 0x1B8), (0x1BC, 0x1BC), (0x1C4, 0x1C4), (0x1C7, 0x1C7),
    (0x1CA, 0x1CA), (0x1F1, 0x1F1), (0x1F4, 0x1F4), (0x1F6, 0x1F8), (0x23A, 0x23B),
    (0x23D, 0x23E), (0x241, 0x241), (0x243, 0x246), (0x370, 0x370), (0x372, 0x372),
    (0x376, 0x376), (0x37F, 0x37F), (0x386, 0x386), (0x388, 0x38A), (0x38C, 0x38C),
    (0x38E, 0x38F), (0x391, 0x3A1), (0x3A3, 0x3AB), (0x3CF, 0x3CF), (0x3D2, 0x3D4),
    (0x3F4, 0x3F4), (0x3F7, 0x3F7), (0x3F9, 0x3FA), (0x3FD, 0x42F), (0x4C0, 0x4C1),
    (0x531, 0x556), (0x10A0, 0x10C5), (0x10C7, 0x10C7), (0x10CD, 0x10CD), (0x13A0, 0x13F5),
    (0x1C90, 0x1CBA), (0x1CBD, 0x1CBF), (0x1F08, 0x1F0F), (0x1F18, 0x1F1D), (0x1F28, 0x1F2F),
    (0x1F38, 0x1F3F), (0x1F48, 0x1F4D), (0x1F68, 0x1F6F), (0x1FB8, 0x1FBB), (0x1FC8, 0x1FCB),
    (0x1FD8, 0x1FDB), (0x1FE8, 0x1FEC), (0x1FF8, 0x1FFB), (0x2102, 0x2102), (0x2107, 0x2107),
    (0x210B, 0x210D), (0x2110, 0x2112), (0x2115, 0x2115), (0x2119, 0x211D), (0x212A, 0x212D),
    (0x2130, 0x2133), (0x213E, 0x213F), (0x2145, 0x2145), (0x2160, 0x216F), (0x2183, 0x2183),
    (0x24B6, 0x24CF), (0x2C00, 0x2C2F), (0x2C60, 0x2C60), (0x2C62, 0x2C64), (0x2C6D, 0x2C70),
    (0x2C72, 0x2C72), (0x2C75, 0x2C75), (0x2C7E, 0x2C80), (0x2CEB, 0x2CEB), (0x2CED, 0x2CED),
    (0x2CF2, 0x2CF2), (0xA779, 0xA779), (0xA77B, 0xA77B), (0xA77D, 0xA77E), (0xA78B, 0xA78B),
    (0xA78D, 0xA78D), (0xA790, 0xA790), (0xA792, 0xA792), (0xA7AA, 0xA7AE), (0xA7B0, 0xA7B4),
    (0xA7C4, 0xA7C7), (0xA7C9, 0xA7C9), (0xA7D0, 0xA7D0), (0xA7D6, 0xA7D6), (0xA7D8, 0xA7D8),
    (0xA7F5, 0xA7F5), (0xFF21, 0xFF3A), (0x10400, 0x10427), (0x104B0, 0x104D3),
    (0x10570, 0x1057A), (0x1057C, 0x1058A), (0x1058C, 0x10592), (0x10594, 0x10595),
    (0x10C80, 0x10CB2), (0x118A0, 0x118BF), (0x16E40, 0x16E5F), (0x1D400, 0x1D419),
    (0x1D434, 0x1D44D), (0x1D468, 0x1D481), (0x1D49C, 0x1D49C), (0x1D49E, 0x1D49F),
    (0x1D4A2, 0x1D4A2), (0x1D4A5, 0x1D4A6), (0x1D4A9, 0x1D4AC), (0x1D4AE, 0x1D4B5),
    (0x1D4D0, 0x1D4E9), (0x1D504, 0x1D505), (0x1D507, 0x1D50A), (0x1D50D, 0x1D514),
    (0x1D516, 0x1D51C), (0x1D538, 0x1D539), (0x1D53B, 0x1D53E), (0x1D540, 0x1D544),
    (0x1D546, 0x1D546), (0x1D54A, 0x1D550), (0x1D56C, 0x1D585), (0x1D5A0, 0x1D5B9),
    (0x1D5D4, 0x1D5ED), (0x1D608, 0x1D621), (0x1D63C, 0x1D655), (0x1D670, 0x1D689),
    (0x1D6A8, 0x1D6C0), (0x1D6E2, 0x1D6FA), (0x1D71C, 0x1D734), (0x1D756, 0x1D76E),
    (0x1D790, 0x1D7A8), (0x1D7CA, 0x1D7CA), (0x1E900, 0x1E921), (0x1F130, 0x1F149),
    (0x1F150, 0x1F169), (0x1F170, 0x1F189)
  ]

/-- Capital letters above ASCII that alternate with their small letters. -/
def alternatingCapitals : List (Nat × Nat) :=
  [
    (0x100, 0x136), (0x139, 0x147), (0x14A, 0x176), (0x1CD, 0x1DB), (0x1DE, 0x1EE),
    (0x1FA, 0x232), (0x248, 0x24E), (0x3D8, 0x3EE), (0x460, 0x480), (0x48A, 0x4BE),
    (0x4C3, 0x4CD), (0x4D0, 0x52E), (0x1E00, 0x1E94), (0x1E9E, 0x1EFE), (0x1F59, 0x1F5F),
    (0x2124, 0x2128), (0x2C67, 0x2C6B), (0x2C82, 0x2CE2), (0xA640, 0xA66C), (0xA680, 0xA69A),
    (0xA722, 0xA72E), (0xA732, 0xA76E), (0xA780, 0xA786), (0xA796, 0xA7A8), (0xA7B6, 0xA7C2)
  ]

/-- Whether the character is a capital letter. -/
def isCapital (c : Char) : Bool :=
  if c.toNat < 0x80 then c.isUpper
  else inRanges capitalRanges c.toNat || inAlternating alternatingCapitals c.toNat

/-- Rows of small letters above ASCII, each with the distance from a letter to its capital. -/
def capitalDistances : List (Nat × Nat × Int) :=
  [
    (0xB5, 0xB5, 743), (0xE0, 0xF6, -32), (0xF8, 0xFE, -32), (0xFF, 0xFF, 121),
    (0x131, 0x131, -232), (0x17F, 0x17F, -300), (0x180, 0x180, 195), (0x188, 0x188, -1),
    (0x18C, 0x18C, -1), (0x192, 0x192, -1), (0x195, 0x195, 97), (0x199, 0x199, -1),
    (0x19A, 0x19A, 163), (0x19E, 0x19E, 130), (0x1A8, 0x1A8, -1), (0x1AD, 0x1AD, -1),
    (0x1B0, 0x1B0, -1), (0x1B9, 0x1B9, -1), (0x1BD, 0x1BD, -1), (0x1BF, 0x1BF, 56),
    (0x1C5, 0x1C5, -1), (0x1C6, 0x1C6, -2), (0x1C8, 0x1C8, -1), (0x1C9, 0x1C9, -2),
    (0x1CB, 0x1CB, -1), (0x1CC, 0x1CC, -2), (0x1DD, 0x1DD, -79), (0x1F2, 0x1F2, -1),
    (0x1F3, 0x1F3, -2), (0x1F5, 0x1F5, -1), (0x23C, 0x23C, -1), (0x23F, 0x240, 10815),
    (0x242, 0x242, -1), (0x250, 0x250, 10783), (0x251, 0x251, 10780), (0x252, 0x252, 10782),
    (0x253, 0x253, -210), (0x254, 0x254, -206), (0x256, 0x257, -205), (0x259, 0x259, -202),
    (0x25B, 0x25B, -203), (0x25C, 0x25C, 42319), (0x260, 0x260, -205), (0x261, 0x261, 42315),
    (0x263, 0x263, -207), (0x265, 0x265, 42280), (0x266, 0x266, 42308), (0x268, 0x268, -209),
    (0x269, 0x269, -211), (0x26A, 0x26A, 42308), (0x26B, 0x26B, 10743), (0x26C, 0x26C, 42305),
    (0x26F, 0x26F, -211), (0x271, 0x271, 10749), (0x272, 0x272, -213), (0x275, 0x275, -214),
    (0x27D, 0x27D, 10727), (0x280, 0x280, -218), (0x282, 0x282, 42307), (0x283, 0x283, -218),
    (0x287, 0x287, 42282), (0x288, 0x288, -218), (0x289, 0x289, -69), (0x28A, 0x28B, -217),
    (0x28C, 0x28C, -71), (0x292, 0x292, -219), (0x29D, 0x29D, 42261), (0x29E, 0x29E, 42258),
    (0x345, 0x345, 84), (0x377, 0x377, -1), (0x37B, 0x37D, 130), (0x3AC, 0x3AC, -38),
    (0x3AD, 0x3AF, -37), (0x3B1, 0x3C1, -32), (0x3C2, 0x3C2, -31), (0x3C3, 0x3CB, -32),
    (0x3CC, 0x3CC, -64), (0x3CD, 0x3CE, -63), (0x3D0, 0x3D0, -62), (0x3D1, 0x3D1, -57),
    (0x3D5, 0x3D5, -47), (0x3D6, 0x3D6, -54), (0x3D7, 0x3D7, -8), (0x3F0, 0x3F0, -86),
    (0x3F1, 0x3F1, -80), (0x3F2, 0x3F2, 7), (0x3F3, 0x3F3, -116), (0x3F5, 0x3F5, -96),
    (0x3F8, 0x3F8, -1), (0x3FB, 0x3FB, -1), (0x430, 0x44F, -32), (0x450, 0x45F, -80),
    (0x4CF, 0x4CF, -15), (0x561, 0x586, -48), (0x10D0, 0x10FA, 3008), (0x10FD, 0x10FF, 3008),
    (0x13F8, 0x13FD, -8), (0x1C80, 0x1C80, -6254), (0x1C81, 0x1C81, -6253),
    (0x1C82, 0x1C82, -6244), (0x1C83, 0x1C84, -6242), (0x1C85, 0x1C85, -6243),
    (0x1C86, 0x1C86, -6236), (0x1C87, 0x1C87, -6181), (0x1C88, 0x1C88, 35266),
    (0x1D79, 0x1D79, 35332), (0x1D7D, 0x1D7D, 3814), (0x1D8E, 0x1D8E, 35384),
    (0x1E9B, 0x1E9B, -59), (0x1F00, 0x1F07, 8), (0x1F10, 0x1F15, 8), (0x1F20, 0x1F27, 8),
    (0x1F30, 0x1F37, 8), (0x1F40, 0x1F45, 8), (0x1F60, 0x1F67, 8), (0x1F70, 0x1F71, 74),
    (0x1F72, 0x1F75, 86), (0x1F76, 0x1F77, 100), (0x1F78, 0x1F79, 128), (0x1F7A, 0x1F7B, 112),
    (0x1F7C, 0x1F7D, 126), (0x1FB0, 0x1FB1, 8), (0x1FBE, 0x1FBE, -7205), (0x1FD0, 0x1FD1, 8),
    (0x1FE0, 0x1FE1, 8), (0x1FE5, 0x1FE5, 7), (0x214E, 0x214E, -28), (0x2170, 0x217F, -16),
    (0x2184, 0x2184, -1), (0x24D0, 0x24E9, -26), (0x2C30, 0x2C5F, -48), (0x2C61, 0x2C61, -1),
    (0x2C65, 0x2C65, -10795), (0x2C66, 0x2C66, -10792), (0x2C73, 0x2C73, -1),
    (0x2C76, 0x2C76, -1), (0x2CF3, 0x2CF3, -1), (0x2D00, 0x2D25, -7264),
    (0x2D27, 0x2D27, -7264), (0x2D2D, 0x2D2D, -7264), (0xA78C, 0xA78C, -1),
    (0xA794, 0xA794, 48), (0xA7D1, 0xA7D1, -1), (0xA7F6, 0xA7F6, -1), (0xAB53, 0xAB53, -928),
    (0xAB70, 0xABBF, -38864), (0xFF41, 0xFF5A, -32), (0x10428, 0x1044F, -40),
    (0x104D8, 0x104FB, -40), (0x10597, 0x105A1, -39), (0x105A3, 0x105B1, -39),
    (0x105B3, 0x105B9, -39), (0x105BB, 0x105BC, -39), (0x10CC0, 0x10CF2, -64),
    (0x118C0, 0x118DF, -32), (0x16E60, 0x16E7F, -32), (0x1E922, 0x1E943, -34)
  ]

/-- The same for small letters that alternate with their capitals. -/
def alternatingDistances : List (Nat × Nat × Int) :=
  [
    (0x101, 0x12F, -1), (0x133, 0x137, -1), (0x13A, 0x148, -1), (0x14B, 0x177, -1),
    (0x17A, 0x17E, -1), (0x183, 0x185, -1), (0x1A1, 0x1A5, -1), (0x1B4, 0x1B6, -1),
    (0x1CE, 0x1DC, -1), (0x1DF, 0x1EF, -1), (0x1F9, 0x21F, -1), (0x223, 0x233, -1),
    (0x247, 0x24F, -1), (0x371, 0x373, -1), (0x3D9, 0x3EF, -1), (0x461, 0x481, -1),
    (0x48B, 0x4BF, -1), (0x4C2, 0x4CE, -1), (0x4D1, 0x52F, -1), (0x1E01, 0x1E95, -1),
    (0x1EA1, 0x1EFF, -1), (0x1F51, 0x1F57, 8), (0x2C68, 0x2C6C, -1), (0x2C81, 0x2CE3, -1),
    (0x2CEC, 0x2CEE, -1), (0xA641, 0xA66D, -1), (0xA681, 0xA69B, -1), (0xA723, 0xA72F, -1),
    (0xA733, 0xA76F, -1), (0xA77A, 0xA77C, -1), (0xA77F, 0xA787, -1), (0xA791, 0xA793, -1),
    (0xA797, 0xA7A9, -1), (0xA7B5, 0xA7C3, -1), (0xA7C8, 0xA7CA, -1), (0xA7D7, 0xA7D9, -1)
  ]

/-- Letters whose capital is written with more than one letter. -/
def longCapitals : List (Nat × String) :=
  [
    (0xDF, "SS"), (0x149, "\u02bcN"), (0x1F0, "J\u030c"), (0x390, "\u0399\u0308\u0301"),
    (0x3B0, "\u03a5\u0308\u0301"), (0x587, "\u0535\u0552"), (0x1E96, "H\u0331"),
    (0x1E97, "T\u0308"), (0x1E98, "W\u030a"), (0x1E99, "Y\u030a"), (0x1E9A, "A\u02be"),
    (0x1F50, "\u03a5\u0313"), (0x1F52, "\u03a5\u0313\u0300"), (0x1F54, "\u03a5\u0313\u0301"),
    (0x1F56, "\u03a5\u0313\u0342"), (0x1F80, "\u1f08\u0399"), (0x1F81, "\u1f09\u0399"),
    (0x1F82, "\u1f0a\u0399"), (0x1F83, "\u1f0b\u0399"), (0x1F84, "\u1f0c\u0399"),
    (0x1F85, "\u1f0d\u0399"), (0x1F86, "\u1f0e\u0399"), (0x1F87, "\u1f0f\u0399"),
    (0x1F88, "\u1f08\u0399"), (0x1F89, "\u1f09\u0399"), (0x1F8A, "\u1f0a\u0399"),
    (0x1F8B, "\u1f0b\u0399"), (0x1F8C, "\u1f0c\u0399"), (0x1F8D, "\u1f0d\u0399"),
    (0x1F8E, "\u1f0e\u0399"), (0x1F8F, "\u1f0f\u0399"), (0x1F90, "\u1f28\u0399"),
    (0x1F91, "\u1f29\u0399"), (0x1F92, "\u1f2a\u0399"), (0x1F93, "\u1f2b\u0399"),
    (0x1F94, "\u1f2c\u0399"), (0x1F95, "\u1f2d\u0399"), (0x1F96, "\u1f2e\u0399"),
    (0x1F97, "\u1f2f\u0399"), (0x1F98, "\u1f28\u0399"), (0x1F99, "\u1f29\u0399"),
    (0x1F9A, "\u1f2a\u0399"), (0x1F9B, "\u1f2b\u0399"), (0x1F9C, "\u1f2c\u0399"),
    (0x1F9D, "\u1f2d\u0399"), (0x1F9E, "\u1f2e\u0399"), (0x1F9F, "\u1f2f\u0399"),
    (0x1FA0, "\u1f68\u0399"), (0x1FA1, "\u1f69\u0399"), (0x1FA2, "\u1f6a\u0399"),
    (0x1FA3, "\u1f6b\u0399"), (0x1FA4, "\u1f6c\u0399"), (0x1FA5, "\u1f6d\u0399"),
    (0x1FA6, "\u1f6e\u0399"), (0x1FA7, "\u1f6f\u0399"), (0x1FA8, "\u1f68\u0399"),
    (0x1FA9, "\u1f69\u0399"), (0x1FAA, "\u1f6a\u0399"), (0x1FAB, "\u1f6b\u0399"),
    (0x1FAC, "\u1f6c\u0399"), (0x1FAD, "\u1f6d\u0399"), (0x1FAE, "\u1f6e\u0399"),
    (0x1FAF, "\u1f6f\u0399"), (0x1FB2, "\u1fba\u0399"), (0x1FB3, "\u0391\u0399"),
    (0x1FB4, "\u0386\u0399"), (0x1FB6, "\u0391\u0342"), (0x1FB7, "\u0391\u0342\u0399"),
    (0x1FBC, "\u0391\u0399"), (0x1FC2, "\u1fca\u0399"), (0x1FC3, "\u0397\u0399"),
    (0x1FC4, "\u0389\u0399"), (0x1FC6, "\u0397\u0342"), (0x1FC7, "\u0397\u0342\u0399"),
    (0x1FCC, "\u0397\u0399"), (0x1FD2, "\u0399\u0308\u0300"), (0x1FD3, "\u0399\u0308\u0301"),
    (0x1FD6, "\u0399\u0342"), (0x1FD7, "\u0399\u0308\u0342"), (0x1FE2, "\u03a5\u0308\u0300"),
    (0x1FE3, "\u03a5\u0308\u0301"), (0x1FE4, "\u03a1\u0313"), (0x1FE6, "\u03a5\u0342"),
    (0x1FE7, "\u03a5\u0308\u0342"), (0x1FF2, "\u1ffa\u0399"), (0x1FF3, "\u03a9\u0399"),
    (0x1FF4, "\u038f\u0399"), (0x1FF6, "\u03a9\u0342"), (0x1FF7, "\u03a9\u0342\u0399"),
    (0x1FFC, "\u03a9\u0399"), (0xFB00, "FF"), (0xFB01, "FI"), (0xFB02, "FL"), (0xFB03, "FFI"),
    (0xFB04, "FFL"), (0xFB05, "ST"), (0xFB06, "ST"), (0xFB13, "\u0544\u0546"),
    (0xFB14, "\u0544\u0535"), (0xFB15, "\u0544\u053b"), (0xFB16, "\u054e\u0546"),
    (0xFB17, "\u0544\u053d")
  ]

/-- The distance from a letter above ASCII to its single capital, zero if it has none. -/
def capitalDistance (n : Nat) : Int :=
  match capitalDistances.find? fun r => r.1 ≤ n && n ≤ r.2.1 with
  | some r => r.2.2
  | none =>
    match alternatingDistances.find? fun r => r.1 ≤ n && n ≤ r.2.1 && (n - r.1) % 2 == 0 with
    | some r => r.2.2
    | none => 0

/-- A character written in capitals. -/
def capitals (c : Char) : List Char :=
  if c.toNat < 0x80 then [c.toUpper]
  else match longCapitals.find? fun r => r.1 == c.toNat with
    | some r => r.2.toList
    | none => [Char.ofNat ((c.toNat : Int) + capitalDistance c.toNat).toNat]

/-- A text written in capitals. -/
def upperCase (s : String) : String :=
  String.ofList (s.toList.flatMap capitals)

/-- A text with its first character written in capitals. -/
def capitalize (s : String) : String :=
  match s.toList with
  | [] => ""
  | c :: rest => String.ofList (capitals c ++ rest)

end SchemaTypes.Text

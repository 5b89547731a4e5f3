/-! The 64 colors that a palette entry selects from. -/
namespace NesConsole

/-- Colors as 24-bit numbers, red highest. -/
def masterPalette : Vector UInt32 64 := #v[
  0x545454, 0x001E74, 0x081090, 0x300088, 0x440064, 0x5C0030, 0x540400, 0x3C1800,
  0x202A00, 0x083A00, 0x004000, 0x003C00, 0x00302C, 0x000000, 0x000000, 0x000000,
  0x989698, 0x084CC4, 0x3032EC, 0x5C1EE4, 0x8814B0, 0xA01464, 0x982220, 0x783C00,
  0x545A00, 0x287200, 0x087C00, 0x007628, 0x006678, 0x000000, 0x000000, 0x000000,
  0xECEEEC, 0x3C7EEC, 0x5C5CEC, 0x8844EC, 0xB02CEC, 0xE028B0, 0xD83C50, 0xC45400,
  0xAC7000, 0x808800, 0x409C30, 0x20A458, 0x209A88, 0x404040, 0x000000, 0x000000,
  0xECEEEC, 0xA8BCEC, 0xBCACEC, 0xD4A0EC, 0xEC94EC, 0xEC90D4, 0xEC9CB4, 0xE4B090,
  0xDCC878, 0xD4DC78, 0xB8EC98, 0xA8ECBC, 0xA0E4E4, 0xA0A0A0, 0x000000, 0x000000]

/-- The color for a palette entry, whose two high bits are not wired. -/
def colorOf (entry : UInt8) : UInt32 :=
  masterPalette[entry.toNat % 64]

end NesConsole

import ViewSync.Text.Range

/-!
# ViewSync.Text.Unprintable

Characters that a quoted text shows by number: controls, format characters, separators other than
the space, private use, unassigned code points, marks that extend the character before them, and
letters that have no glyph of their own.
-/

namespace ViewSync.Text

/-- The code points of general category Cc, Cf, Co, Cn, Zl, Zp or Zs (space excepted), those with the
property Grapheme_Extend (letters excepted: the halfwidth voicing marks have width), and those with the
property Default_Ignorable_Code_Point (the fillers of Hangul, beyond the ones above), in Unicode 17. -/
def unprintableTable : List Stride :=
  [.run 0x0 0x1f, .run 0x7f 0xa0, .run 0xad 0xad, .run 0x300 0x36f, .run 0x378 0x379,
   .run 0x380 0x383, .run 0x38b 0x38b, .run 0x38d 0x38d, .run 0x3a2 0x3a2, .run 0x483 0x489,
   .run 0x530 0x530, .run 0x557 0x558, .run 0x58b 0x58c, .run 0x590 0x5bd, .run 0x5bf 0x5bf,
   .run 0x5c1 0x5c2, .run 0x5c4 0x5c5, .run 0x5c7 0x5cf, .run 0x5eb 0x5ee, .run 0x5f5 0x605,
   .run 0x610 0x61a, .run 0x61c 0x61c, .run 0x64b 0x65f, .run 0x670 0x670, .run 0x6d6 0x6dd,
   .run 0x6df 0x6e4, .run 0x6e7 0x6e8, .run 0x6ea 0x6ed, .run 0x70e 0x70f, .run 0x711 0x711,
   .run 0x730 0x74c, .run 0x7a6 0x7b0, .run 0x7b2 0x7bf, .run 0x7eb 0x7f3, .run 0x7fb 0x7fd,
   .run 0x816 0x819, .run 0x81b 0x823, .run 0x825 0x827, .run 0x829 0x82f, .run 0x83f 0x83f,
   .run 0x859 0x85d, .run 0x85f 0x85f, .run 0x86b 0x86f, .run 0x890 0x89f, .run 0x8ca 0x902,
   .run 0x93a 0x93a, .run 0x93c 0x93c, .run 0x941 0x948, .run 0x94d 0x94d, .run 0x951 0x957,
   .run 0x962 0x963, .run 0x981 0x981, .run 0x984 0x984, .run 0x98d 0x98e, .run 0x991 0x992,
   .run 0x9a9 0x9a9, .run 0x9b1 0x9b1, .run 0x9b3 0x9b5, .run 0x9ba 0x9bc, .run 0x9be 0x9be,
   .run 0x9c1 0x9c6, .run 0x9c9 0x9ca, .run 0x9cd 0x9cd, .run 0x9cf 0x9db, .run 0x9de 0x9de,
   .run 0x9e2 0x9e5, .run 0x9fe 0xa02, .run 0xa04 0xa04, .run 0xa0b 0xa0e, .run 0xa11 0xa12,
   .run 0xa29 0xa29, .run 0xa31 0xa31, .run 0xa34 0xa34, .run 0xa37 0xa37, .run 0xa3a 0xa3d,
   .run 0xa41 0xa58, .run 0xa5d 0xa5d, .run 0xa5f 0xa65, .run 0xa70 0xa71, .run 0xa75 0xa75,
   .run 0xa77 0xa82, .run 0xa84 0xa84, .run 0xa8e 0xa8e, .run 0xa92 0xa92, .run 0xaa9 0xaa9,
   .run 0xab1 0xab1, .run 0xab4 0xab4, .run 0xaba 0xabc, .run 0xac1 0xac8, .run 0xaca 0xaca,
   .run 0xacd 0xacf, .run 0xad1 0xadf, .run 0xae2 0xae5, .run 0xaf2 0xaf8, .run 0xafa 0xb01,
   .run 0xb04 0xb04, .run 0xb0d 0xb0e, .run 0xb11 0xb12, .run 0xb29 0xb29, .run 0xb31 0xb31,
   .run 0xb34 0xb34, .run 0xb3a 0xb3c, .run 0xb3e 0xb3f, .run 0xb41 0xb46, .run 0xb49 0xb4a,
   .run 0xb4d 0xb5b, .run 0xb5e 0xb5e, .run 0xb62 0xb65, .run 0xb78 0xb82, .run 0xb84 0xb84,
   .run 0xb8b 0xb8d, .run 0xb91 0xb91, .run 0xb96 0xb98, .run 0xb9b 0xb9b, .run 0xb9d 0xb9d,
   .run 0xba0 0xba2, .run 0xba5 0xba7, .run 0xbab 0xbad, .run 0xbba 0xbbe, .run 0xbc0 0xbc0,
   .run 0xbc3 0xbc5, .run 0xbc9 0xbc9, .run 0xbcd 0xbcf, .run 0xbd1 0xbe5, .run 0xbfb 0xc00,
   .run 0xc04 0xc04, .run 0xc0d 0xc0d, .run 0xc11 0xc11, .run 0xc29 0xc29, .run 0xc3a 0xc3c,
   .run 0xc3e 0xc40, .run 0xc45 0xc57, .run 0xc5b 0xc5b, .run 0xc5e 0xc5f, .run 0xc62 0xc65,
   .run 0xc70 0xc76, .run 0xc81 0xc81, .run 0xc8d 0xc8d, .run 0xc91 0xc91, .run 0xca9 0xca9,
   .run 0xcb4 0xcb4, .run 0xcba 0xcbc, .run 0xcbf 0xcc0, .run 0xcc2 0xcc2, .run 0xcc5 0xcdb,
   .run 0xcdf 0xcdf, .run 0xce2 0xce5, .run 0xcf0 0xcf0, .run 0xcf4 0xd01, .run 0xd0d 0xd0d,
   .run 0xd11 0xd11, .run 0xd3b 0xd3c, .run 0xd3e 0xd3e, .run 0xd41 0xd45, .run 0xd49 0xd49,
   .run 0xd4d 0xd4d, .run 0xd50 0xd53, .run 0xd57 0xd57, .run 0xd62 0xd65, .run 0xd80 0xd81,
   .run 0xd84 0xd84, .run 0xd97 0xd99, .run 0xdb2 0xdb2, .run 0xdbc 0xdbc, .run 0xdbe 0xdbf,
   .run 0xdc7 0xdcf, .run 0xdd2 0xdd7, .run 0xddf 0xde5, .run 0xdf0 0xdf1, .run 0xdf5 0xe00,
   .run 0xe31 0xe31, .run 0xe34 0xe3e, .run 0xe47 0xe4e, .run 0xe5c 0xe80, .run 0xe83 0xe83,
   .run 0xe85 0xe85, .run 0xe8b 0xe8b, .run 0xea4 0xea4, .run 0xea6 0xea6, .run 0xeb1 0xeb1,
   .run 0xeb4 0xebc, .run 0xebe 0xebf, .run 0xec5 0xec5, .run 0xec7 0xecf, .run 0xeda 0xedb,
   .run 0xee0 0xeff, .run 0xf18 0xf19, .run 0xf35 0xf35, .run 0xf37 0xf37, .run 0xf39 0xf39,
   .run 0xf48 0xf48, .run 0xf6d 0xf7e, .run 0xf80 0xf84, .run 0xf86 0xf87, .run 0xf8d 0xfbd,
   .run 0xfc6 0xfc6, .run 0xfcd 0xfcd, .run 0xfdb 0xfff, .run 0x102d 0x1030, .run 0x1032 0x1037,
   .run 0x1039 0x103a, .run 0x103d 0x103e, .run 0x1058 0x1059, .run 0x105e 0x1060,
   .run 0x1071 0x1074, .run 0x1082 0x1082, .run 0x1085 0x1086, .run 0x108d 0x108d,
   .run 0x109d 0x109d, .run 0x10c6 0x10c6, .run 0x10c8 0x10cc, .run 0x10ce 0x10cf,
   .run 0x115f 0x1160, .run 0x1249 0x1249, .run 0x124e 0x124f, .run 0x1257 0x1257,
   .run 0x1259 0x1259, .run 0x125e 0x125f, .run 0x1289 0x1289, .run 0x128e 0x128f,
   .run 0x12b1 0x12b1, .run 0x12b6 0x12b7, .run 0x12bf 0x12bf, .run 0x12c1 0x12c1,
   .run 0x12c6 0x12c7, .run 0x12d7 0x12d7, .run 0x1311 0x1311, .run 0x1316 0x1317,
   .run 0x135b 0x135f, .run 0x137d 0x137f, .run 0x139a 0x139f, .run 0x13f6 0x13f7,
   .run 0x13fe 0x13ff, .run 0x1680 0x1680, .run 0x169d 0x169f, .run 0x16f9 0x16ff,
   .run 0x1712 0x171e, .run 0x1732 0x1734, .run 0x1737 0x173f, .run 0x1752 0x175f,
   .run 0x176d 0x176d, .run 0x1771 0x177f, .run 0x17b4 0x17b5, .run 0x17b7 0x17bd,
   .run 0x17c6 0x17c6, .run 0x17c9 0x17d3, .run 0x17dd 0x17df, .run 0x17ea 0x17ef,
   .run 0x17fa 0x17ff, .run 0x180b 0x180f, .run 0x181a 0x181f, .run 0x1879 0x187f,
   .run 0x1885 0x1886, .run 0x18a9 0x18a9, .run 0x18ab 0x18af, .run 0x18f6 0x18ff,
   .run 0x191f 0x1922, .run 0x1927 0x1928, .run 0x192c 0x192f, .run 0x1932 0x1932,
   .run 0x1939 0x193f, .run 0x1941 0x1943, .run 0x196e 0x196f, .run 0x1975 0x197f,
   .run 0x19ac 0x19af, .run 0x19ca 0x19cf, .run 0x19db 0x19dd, .run 0x1a17 0x1a18,
   .run 0x1a1b 0x1a1d, .run 0x1a56 0x1a56, .run 0x1a58 0x1a60, .run 0x1a62 0x1a62,
   .run 0x1a65 0x1a6c, .run 0x1a73 0x1a7f, .run 0x1a8a 0x1a8f, .run 0x1a9a 0x1a9f,
   .run 0x1aae 0x1b03, .run 0x1b34 0x1b3d, .run 0x1b42 0x1b44, .run 0x1b4d 0x1b4d,
   .run 0x1b6b 0x1b73, .run 0x1b80 0x1b81, .run 0x1ba2 0x1ba5, .run 0x1ba8 0x1bad,
   .run 0x1be6 0x1be6, .run 0x1be8 0x1be9, .run 0x1bed 0x1bed, .run 0x1bef 0x1bfb,
   .run 0x1c2c 0x1c33, .run 0x1c36 0x1c3a, .run 0x1c4a 0x1c4c, .run 0x1c8b 0x1c8f,
   .run 0x1cbb 0x1cbc, .run 0x1cc8 0x1cd2, .run 0x1cd4 0x1ce0, .run 0x1ce2 0x1ce8,
   .run 0x1ced 0x1ced, .run 0x1cf4 0x1cf4, .run 0x1cf8 0x1cf9, .run 0x1cfb 0x1cff,
   .run 0x1dc0 0x1dff, .run 0x1f16 0x1f17, .run 0x1f1e 0x1f1f, .run 0x1f46 0x1f47,
   .run 0x1f4e 0x1f4f, .run 0x1f58 0x1f58, .run 0x1f5a 0x1f5a, .run 0x1f5c 0x1f5c,
   .run 0x1f5e 0x1f5e, .run 0x1f7e 0x1f7f, .run 0x1fb5 0x1fb5, .run 0x1fc5 0x1fc5,
   .run 0x1fd4 0x1fd5, .run 0x1fdc 0x1fdc, .run 0x1ff0 0x1ff1, .run 0x1ff5 0x1ff5,
   .run 0x1fff 0x200f, .run 0x2028 0x202f, .run 0x205f 0x206f, .run 0x2072 0x2073,
   .run 0x208f 0x208f, .run 0x209d 0x209f, .run 0x20c2 0x20ff, .run 0x218c 0x218f,
   .run 0x242a 0x243f, .run 0x244b 0x245f, .run 0x2b74 0x2b75, .run 0x2cef 0x2cf1,
   .run 0x2cf4 0x2cf8, .run 0x2d26 0x2d26, .run 0x2d28 0x2d2c, .run 0x2d2e 0x2d2f,
   .run 0x2d68 0x2d6e, .run 0x2d71 0x2d7f, .run 0x2d97 0x2d9f, .run 0x2da7 0x2da7,
   .run 0x2daf 0x2daf, .run 0x2db7 0x2db7, .run 0x2dbf 0x2dbf, .run 0x2dc7 0x2dc7,
   .run 0x2dcf 0x2dcf, .run 0x2dd7 0x2dd7, .run 0x2ddf 0x2dff, .run 0x2e5e 0x2e7f,
   .run 0x2e9a 0x2e9a, .run 0x2ef4 0x2eff, .run 0x2fd6 0x2fef, .run 0x3000 0x3000,
   .run 0x302a 0x302f, .run 0x3040 0x3040, .run 0x3097 0x309a, .run 0x3100 0x3104,
   .run 0x3130 0x3130, .run 0x3164 0x3164, .run 0x318f 0x318f, .run 0x31e6 0x31ee,
   .run 0x321f 0x321f, .run 0xa48d 0xa48f, .run 0xa4c7 0xa4cf, .run 0xa62c 0xa63f,
   .run 0xa66f 0xa672, .run 0xa674 0xa67d, .run 0xa69e 0xa69f, .run 0xa6f0 0xa6f1,
   .run 0xa6f8 0xa6ff, .run 0xa7dd 0xa7f0, .run 0xa802 0xa802, .run 0xa806 0xa806,
   .run 0xa80b 0xa80b, .run 0xa825 0xa826, .run 0xa82c 0xa82f, .run 0xa83a 0xa83f,
   .run 0xa878 0xa87f, .run 0xa8c4 0xa8cd, .run 0xa8da 0xa8f1, .run 0xa8ff 0xa8ff,
   .run 0xa926 0xa92d, .run 0xa947 0xa951, .run 0xa953 0xa95e, .run 0xa97d 0xa982,
   .run 0xa9b3 0xa9b3, .run 0xa9b6 0xa9b9, .run 0xa9bc 0xa9bd, .run 0xa9c0 0xa9c0,
   .run 0xa9ce 0xa9ce, .run 0xa9da 0xa9dd, .run 0xa9e5 0xa9e5, .run 0xa9ff 0xa9ff,
   .run 0xaa29 0xaa2e, .run 0xaa31 0xaa32, .run 0xaa35 0xaa3f, .run 0xaa43 0xaa43,
   .run 0xaa4c 0xaa4c, .run 0xaa4e 0xaa4f, .run 0xaa5a 0xaa5b, .run 0xaa7c 0xaa7c,
   .run 0xaab0 0xaab0, .run 0xaab2 0xaab4, .run 0xaab7 0xaab8, .run 0xaabe 0xaabf,
   .run 0xaac1 0xaac1, .run 0xaac3 0xaada, .run 0xaaec 0xaaed, .run 0xaaf6 0xab00,
   .run 0xab07 0xab08, .run 0xab0f 0xab10, .run 0xab17 0xab1f, .run 0xab27 0xab27,
   .run 0xab2f 0xab2f, .run 0xab6c 0xab6f, .run 0xabe5 0xabe5, .run 0xabe8 0xabe8,
   .run 0xabed 0xabef, .run 0xabfa 0xabff, .run 0xd7a4 0xd7af, .run 0xd7c7 0xd7ca,
   .run 0xd7fc 0xd7ff, .run 0xe000 0xf8ff, .run 0xfa6e 0xfa6f, .run 0xfada 0xfaff,
   .run 0xfb07 0xfb12, .run 0xfb18 0xfb1c, .run 0xfb1e 0xfb1e, .run 0xfb37 0xfb37,
   .run 0xfb3d 0xfb3d, .run 0xfb3f 0xfb3f, .run 0xfb42 0xfb42, .run 0xfb45 0xfb45,
   .run 0xfdd0 0xfdef, .run 0xfe00 0xfe0f, .run 0xfe1a 0xfe2f, .run 0xfe53 0xfe53,
   .run 0xfe67 0xfe67, .run 0xfe6c 0xfe6f, .run 0xfe75 0xfe75, .run 0xfefd 0xff00,
   .run 0xffa0 0xffa0, .run 0xffbf 0xffc1, .run 0xffc8 0xffc9, .run 0xffd0 0xffd1,
   .run 0xffd8 0xffd9, .run 0xffdd 0xffdf, .run 0xffe7 0xffe7, .run 0xffef 0xfffb,
   .run 0xfffe 0xffff, .run 0x1000c 0x1000c, .run 0x10027 0x10027, .run 0x1003b 0x1003b,
   .run 0x1003e 0x1003e, .run 0x1004e 0x1004f, .run 0x1005e 0x1007f, .run 0x100fb 0x100ff,
   .run 0x10103 0x10106, .run 0x10134 0x10136, .run 0x1018f 0x1018f, .run 0x1019d 0x1019f,
   .run 0x101a1 0x101cf, .run 0x101fd 0x1027f, .run 0x1029d 0x1029f, .run 0x102d1 0x102e0,
   .run 0x102fc 0x102ff, .run 0x10324 0x1032c, .run 0x1034b 0x1034f, .run 0x10376 0x1037f,
   .run 0x1039e 0x1039e, .run 0x103c4 0x103c7, .run 0x103d6 0x103ff, .run 0x1049e 0x1049f,
   .run 0x104aa 0x104af, .run 0x104d4 0x104d7, .run 0x104fc 0x104ff, .run 0x10528 0x1052f,
   .run 0x10564 0x1056e, .run 0x1057b 0x1057b, .run 0x1058b 0x1058b, .run 0x10593 0x10593,
   .run 0x10596 0x10596, .run 0x105a2 0x105a2, .run 0x105b2 0x105b2, .run 0x105ba 0x105ba,
   .run 0x105bd 0x105bf, .run 0x105f4 0x105ff, .run 0x10737 0x1073f, .run 0x10756 0x1075f,
   .run 0x10768 0x1077f, .run 0x10786 0x10786, .run 0x107b1 0x107b1, .run 0x107bb 0x107ff,
   .run 0x10806 0x10807, .run 0x10809 0x10809, .run 0x10836 0x10836, .run 0x10839 0x1083b,
   .run 0x1083d 0x1083e, .run 0x10856 0x10856, .run 0x1089f 0x108a6, .run 0x108b0 0x108df,
   .run 0x108f3 0x108f3, .run 0x108f6 0x108fa, .run 0x1091c 0x1091e, .run 0x1093a 0x1093e,
   .run 0x1095a 0x1097f, .run 0x109b8 0x109bb, .run 0x109d0 0x109d1, .run 0x10a01 0x10a0f,
   .run 0x10a14 0x10a14, .run 0x10a18 0x10a18, .run 0x10a36 0x10a3f, .run 0x10a49 0x10a4f,
   .run 0x10a59 0x10a5f, .run 0x10aa0 0x10abf, .run 0x10ae5 0x10aea, .run 0x10af7 0x10aff,
   .run 0x10b36 0x10b38, .run 0x10b56 0x10b57, .run 0x10b73 0x10b77, .run 0x10b92 0x10b98,
   .run 0x10b9d 0x10ba8, .run 0x10bb0 0x10bff, .run 0x10c49 0x10c7f, .run 0x10cb3 0x10cbf,
   .run 0x10cf3 0x10cf9, .run 0x10d24 0x10d2f, .run 0x10d3a 0x10d3f, .run 0x10d66 0x10d6d,
   .run 0x10d86 0x10d8d, .run 0x10d90 0x10e5f, .run 0x10e7f 0x10e7f, .run 0x10eaa 0x10eac,
   .run 0x10eae 0x10eaf, .run 0x10eb2 0x10ec1, .run 0x10ec8 0x10ecf, .run 0x10ed9 0x10eff,
   .run 0x10f28 0x10f2f, .run 0x10f46 0x10f50, .run 0x10f5a 0x10f6f, .run 0x10f82 0x10f85,
   .run 0x10f8a 0x10faf, .run 0x10fcc 0x10fdf, .run 0x10ff7 0x10fff, .run 0x11001 0x11001,
   .run 0x11038 0x11046, .run 0x1104e 0x11051, .run 0x11070 0x11070, .run 0x11073 0x11074,
   .run 0x11076 0x11081, .run 0x110b3 0x110b6, .run 0x110b9 0x110ba, .run 0x110bd 0x110bd,
   .run 0x110c2 0x110cf, .run 0x110e9 0x110ef, .run 0x110fa 0x11102, .run 0x11127 0x1112b,
   .run 0x1112d 0x11135, .run 0x11148 0x1114f, .run 0x11173 0x11173, .run 0x11177 0x11181,
   .run 0x111b6 0x111be, .run 0x111c0 0x111c0, .run 0x111c9 0x111cc, .run 0x111cf 0x111cf,
   .run 0x111e0 0x111e0, .run 0x111f5 0x111ff, .run 0x11212 0x11212, .run 0x1122f 0x11231,
   .run 0x11234 0x11237, .run 0x1123e 0x1123e, .run 0x11241 0x1127f, .run 0x11287 0x11287,
   .run 0x11289 0x11289, .run 0x1128e 0x1128e, .run 0x1129e 0x1129e, .run 0x112aa 0x112af,
   .run 0x112df 0x112df, .run 0x112e3 0x112ef, .run 0x112fa 0x11301, .run 0x11304 0x11304,
   .run 0x1130d 0x1130e, .run 0x11311 0x11312, .run 0x11329 0x11329, .run 0x11331 0x11331,
   .run 0x11334 0x11334, .run 0x1133a 0x1133c, .run 0x1133e 0x1133e, .run 0x11340 0x11340,
   .run 0x11345 0x11346, .run 0x11349 0x1134a, .run 0x1134d 0x1134f, .run 0x11351 0x1135c,
   .run 0x11364 0x1137f, .run 0x1138a 0x1138a, .run 0x1138c 0x1138d, .run 0x1138f 0x1138f,
   .run 0x113b6 0x113b6, .run 0x113b8 0x113b8, .run 0x113bb 0x113c9, .run 0x113cb 0x113cb,
   .run 0x113ce 0x113d0, .run 0x113d2 0x113d2, .run 0x113d6 0x113d6, .run 0x113d9 0x113ff,
   .run 0x11438 0x1143f, .run 0x11442 0x11444, .run 0x11446 0x11446, .run 0x1145c 0x1145c,
   .run 0x1145e 0x1145e, .run 0x11462 0x1147f, .run 0x114b0 0x114b0, .run 0x114b3 0x114b8,
   .run 0x114ba 0x114ba, .run 0x114bd 0x114bd, .run 0x114bf 0x114c0, .run 0x114c2 0x114c3,
   .run 0x114c8 0x114cf, .run 0x114da 0x1157f, .run 0x115af 0x115af, .run 0x115b2 0x115b7,
   .run 0x115bc 0x115bd, .run 0x115bf 0x115c0, .run 0x115dc 0x115ff, .run 0x11633 0x1163a,
   .run 0x1163d 0x1163d, .run 0x1163f 0x11640, .run 0x11645 0x1164f, .run 0x1165a 0x1165f,
   .run 0x1166d 0x1167f, .run 0x116ab 0x116ab, .run 0x116ad 0x116ad, .run 0x116b0 0x116b7,
   .run 0x116ba 0x116bf, .run 0x116ca 0x116cf, .run 0x116e4 0x116ff, .run 0x1171b 0x1171d,
   .run 0x1171f 0x1171f, .run 0x11722 0x11725, .run 0x11727 0x1172f, .run 0x11747 0x117ff,
   .run 0x1182f 0x11837, .run 0x11839 0x1183a, .run 0x1183c 0x1189f, .run 0x118f3 0x118fe,
   .run 0x11907 0x11908, .run 0x1190a 0x1190b, .run 0x11914 0x11914, .run 0x11917 0x11917,
   .run 0x11930 0x11930, .run 0x11936 0x11936, .run 0x11939 0x1193e, .run 0x11943 0x11943,
   .run 0x11947 0x1194f, .run 0x1195a 0x1199f, .run 0x119a8 0x119a9, .run 0x119d4 0x119db,
   .run 0x119e0 0x119e0, .run 0x119e5 0x119ff, .run 0x11a01 0x11a0a, .run 0x11a33 0x11a38,
   .run 0x11a3b 0x11a3e, .run 0x11a47 0x11a4f, .run 0x11a51 0x11a56, .run 0x11a59 0x11a5b,
   .run 0x11a8a 0x11a96, .run 0x11a98 0x11a99, .run 0x11aa3 0x11aaf, .run 0x11af9 0x11aff,
   .run 0x11b0a 0x11b60, .run 0x11b62 0x11b64, .run 0x11b66 0x11b66, .run 0x11b68 0x11bbf,
   .run 0x11be2 0x11bef, .run 0x11bfa 0x11bff, .run 0x11c09 0x11c09, .run 0x11c30 0x11c3d,
   .run 0x11c3f 0x11c3f, .run 0x11c46 0x11c4f, .run 0x11c6d 0x11c6f, .run 0x11c90 0x11ca8,
   .run 0x11caa 0x11cb0, .run 0x11cb2 0x11cb3, .run 0x11cb5 0x11cff, .run 0x11d07 0x11d07,
   .run 0x11d0a 0x11d0a, .run 0x11d31 0x11d45, .run 0x11d47 0x11d4f, .run 0x11d5a 0x11d5f,
   .run 0x11d66 0x11d66, .run 0x11d69 0x11d69, .run 0x11d8f 0x11d92, .run 0x11d95 0x11d95,
   .run 0x11d97 0x11d97, .run 0x11d99 0x11d9f, .run 0x11daa 0x11daf, .run 0x11ddc 0x11ddf,
   .run 0x11dea 0x11edf, .run 0x11ef3 0x11ef4, .run 0x11ef9 0x11f01, .run 0x11f11 0x11f11,
   .run 0x11f36 0x11f3d, .run 0x11f40 0x11f42, .run 0x11f5a 0x11faf, .run 0x11fb1 0x11fbf,
   .run 0x11ff2 0x11ffe, .run 0x1239a 0x123ff, .run 0x1246f 0x1246f, .run 0x12475 0x1247f,
   .run 0x12544 0x12f8f, .run 0x12ff3 0x12fff, .run 0x13430 0x13440, .run 0x13447 0x1345f,
   .run 0x143fb 0x143ff, .run 0x14647 0x160ff, .run 0x1611e 0x16129, .run 0x1612d 0x1612f,
   .run 0x1613a 0x167ff, .run 0x16a39 0x16a3f, .run 0x16a5f 0x16a5f, .run 0x16a6a 0x16a6d,
   .run 0x16abf 0x16abf, .run 0x16aca 0x16acf, .run 0x16aee 0x16af4, .run 0x16af6 0x16aff,
   .run 0x16b30 0x16b36, .run 0x16b46 0x16b4f, .run 0x16b5a 0x16b5a, .run 0x16b62 0x16b62,
   .run 0x16b78 0x16b7c, .run 0x16b90 0x16d3f, .run 0x16d7a 0x16e3f, .run 0x16e9b 0x16e9f,
   .run 0x16eb9 0x16eba, .run 0x16ed4 0x16eff, .run 0x16f4b 0x16f4f, .run 0x16f88 0x16f92,
   .run 0x16fa0 0x16fdf, .run 0x16fe4 0x16ff1, .run 0x16ff7 0x16fff, .run 0x18cd6 0x18cfe,
   .run 0x18d1f 0x18d7f, .run 0x18df3 0x1afef, .run 0x1aff4 0x1aff4, .run 0x1affc 0x1affc,
   .run 0x1afff 0x1afff, .run 0x1b123 0x1b131, .run 0x1b133 0x1b14f, .run 0x1b153 0x1b154,
   .run 0x1b156 0x1b163, .run 0x1b168 0x1b16f, .run 0x1b2fc 0x1bbff, .run 0x1bc6b 0x1bc6f,
   .run 0x1bc7d 0x1bc7f, .run 0x1bc89 0x1bc8f, .run 0x1bc9a 0x1bc9b, .run 0x1bc9d 0x1bc9e,
   .run 0x1bca0 0x1cbff, .run 0x1ccfd 0x1ccff, .run 0x1ceb4 0x1ceb9, .run 0x1ced1 0x1cedf,
   .run 0x1cef1 0x1cf4f, .run 0x1cfc4 0x1cfff, .run 0x1d0f6 0x1d0ff, .run 0x1d127 0x1d128,
   .run 0x1d165 0x1d169, .run 0x1d16d 0x1d182, .run 0x1d185 0x1d18b, .run 0x1d1aa 0x1d1ad,
   .run 0x1d1eb 0x1d1ff, .run 0x1d242 0x1d244, .run 0x1d246 0x1d2bf, .run 0x1d2d4 0x1d2df,
   .run 0x1d2f4 0x1d2ff, .run 0x1d357 0x1d35f, .run 0x1d379 0x1d3ff, .run 0x1d455 0x1d455,
   .run 0x1d49d 0x1d49d, .run 0x1d4a0 0x1d4a1, .run 0x1d4a3 0x1d4a4, .run 0x1d4a7 0x1d4a8,
   .run 0x1d4ad 0x1d4ad, .run 0x1d4ba 0x1d4ba, .run 0x1d4bc 0x1d4bc, .run 0x1d4c4 0x1d4c4,
   .run 0x1d506 0x1d506, .run 0x1d50b 0x1d50c, .run 0x1d515 0x1d515, .run 0x1d51d 0x1d51d,
   .run 0x1d53a 0x1d53a, .run 0x1d53f 0x1d53f, .run 0x1d545 0x1d545, .run 0x1d547 0x1d549,
   .run 0x1d551 0x1d551, .run 0x1d6a6 0x1d6a7, .run 0x1d7cc 0x1d7cd, .run 0x1da00 0x1da36,
   .run 0x1da3b 0x1da6c, .run 0x1da75 0x1da75, .run 0x1da84 0x1da84, .run 0x1da8c 0x1deff,
   .run 0x1df1f 0x1df24, .run 0x1df2b 0x1e02f, .run 0x1e06e 0x1e0ff, .run 0x1e12d 0x1e136,
   .run 0x1e13e 0x1e13f, .run 0x1e14a 0x1e14d, .run 0x1e150 0x1e28f, .run 0x1e2ae 0x1e2bf,
   .run 0x1e2ec 0x1e2ef, .run 0x1e2fa 0x1e2fe, .run 0x1e300 0x1e4cf, .run 0x1e4ec 0x1e4ef,
   .run 0x1e4fa 0x1e5cf, .run 0x1e5ee 0x1e5ef, .run 0x1e5fb 0x1e5fe, .run 0x1e600 0x1e6bf,
   .run 0x1e6df 0x1e6df, .run 0x1e6e3 0x1e6e3, .run 0x1e6e6 0x1e6e6, .run 0x1e6ee 0x1e6ef,
   .run 0x1e6f5 0x1e6fd, .run 0x1e700 0x1e7df, .run 0x1e7e7 0x1e7e7, .run 0x1e7ec 0x1e7ec,
   .run 0x1e7ef 0x1e7ef, .run 0x1e7ff 0x1e7ff, .run 0x1e8c5 0x1e8c6, .run 0x1e8d0 0x1e8ff,
   .run 0x1e944 0x1e94a, .run 0x1e94c 0x1e94f, .run 0x1e95a 0x1e95d, .run 0x1e960 0x1ec70,
   .run 0x1ecb5 0x1ed00, .run 0x1ed3e 0x1edff, .run 0x1ee04 0x1ee04, .run 0x1ee20 0x1ee20,
   .run 0x1ee23 0x1ee23, .run 0x1ee25 0x1ee26, .run 0x1ee28 0x1ee28, .run 0x1ee33 0x1ee33,
   .run 0x1ee38 0x1ee38, .run 0x1ee3a 0x1ee3a, .run 0x1ee3c 0x1ee41, .run 0x1ee43 0x1ee46,
   .run 0x1ee48 0x1ee48, .run 0x1ee4a 0x1ee4a, .run 0x1ee4c 0x1ee4c, .run 0x1ee50 0x1ee50,
   .run 0x1ee53 0x1ee53, .run 0x1ee55 0x1ee56, .run 0x1ee58 0x1ee58, .run 0x1ee5a 0x1ee5a,
   .run 0x1ee5c 0x1ee5c, .run 0x1ee5e 0x1ee5e, .run 0x1ee60 0x1ee60, .run 0x1ee63 0x1ee63,
   .run 0x1ee65 0x1ee66, .run 0x1ee6b 0x1ee6b, .run 0x1ee73 0x1ee73, .run 0x1ee78 0x1ee78,
   .run 0x1ee7d 0x1ee7d, .run 0x1ee7f 0x1ee7f, .run 0x1ee8a 0x1ee8a, .run 0x1ee9c 0x1eea0,
   .run 0x1eea4 0x1eea4, .run 0x1eeaa 0x1eeaa, .run 0x1eebc 0x1eeef, .run 0x1eef2 0x1efff,
   .run 0x1f02c 0x1f02f, .run 0x1f094 0x1f09f, .run 0x1f0af 0x1f0b0, .run 0x1f0c0 0x1f0c0,
   .run 0x1f0d0 0x1f0d0, .run 0x1f0f6 0x1f0ff, .run 0x1f1ae 0x1f1e5, .run 0x1f203 0x1f20f,
   .run 0x1f23c 0x1f23f, .run 0x1f249 0x1f24f, .run 0x1f252 0x1f25f, .run 0x1f266 0x1f2ff,
   .run 0x1f6d9 0x1f6db, .run 0x1f6ed 0x1f6ef, .run 0x1f6fd 0x1f6ff, .run 0x1f7da 0x1f7df,
   .run 0x1f7ec 0x1f7ef, .run 0x1f7f1 0x1f7ff, .run 0x1f80c 0x1f80f, .run 0x1f848 0x1f84f,
   .run 0x1f85a 0x1f85f, .run 0x1f888 0x1f88f, .run 0x1f8ae 0x1f8af, .run 0x1f8bc 0x1f8bf,
   .run 0x1f8c2 0x1f8cf, .run 0x1f8d9 0x1f8ff, .run 0x1fa58 0x1fa5f, .run 0x1fa6e 0x1fa6f,
   .run 0x1fa7d 0x1fa7f, .run 0x1fa8b 0x1fa8d, .run 0x1fac7 0x1fac7, .run 0x1fac9 0x1facc,
   .run 0x1fadd 0x1fade, .run 0x1faeb 0x1faee, .run 0x1faf9 0x1faff, .run 0x1fb93 0x1fb93,
   .run 0x1fbfb 0x1ffff, .run 0x2a6e0 0x2a6ff, .run 0x2b81e 0x2b81f, .run 0x2ceae 0x2ceaf,
   .run 0x2ebe1 0x2ebef, .run 0x2ee5e 0x2f7ff, .run 0x2fa1e 0x2ffff, .run 0x3134b 0x3134f,
   .run 0x3347a 0x10ffff]

/-- A character that has no shape of its own on a line of text. -/
def isUnprintable (c : Char) : Bool :=
  inTable unprintableTable c

end ViewSync.Text

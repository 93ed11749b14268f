import Proctor.Pattern.CharSet

/-! # General categories

Unicode gives every code point one general category. The table lists them in the order of the code
points, as runs. -/

namespace Proctor.Pattern

inductive Category
  | lu | ll | lt | lm | lo
  | mn | mc | me
  | nd | nl | no
  | pc | pd | ps | pe | pi | pf | po
  | sm | sc | sk | so
  | zs | zl | zp
  | cc | cf | cs | co | cn
  deriving Repr, DecidableEq

namespace Category

def letters : List Category := [lu, ll, lt, lm, lo]
def marks : List Category := [mn, mc, me]
def numbers : List Category := [nd, nl, no]
def punctuation : List Category := [pc, pd, ps, pe, pi, pf, po]
def symbols : List Category := [sm, sc, sk, so]
def separators : List Category := [zs, zl, zp]
def others : List Category := [cc, cf, cs, co, cn]

/-- The two letters by which the standard names a category. -/
def code : Category → List Char
  | lu => ['L', 'u'] | ll => ['L', 'l'] | lt => ['L', 't'] | lm => ['L', 'm'] | lo => ['L', 'o']
  | mn => ['M', 'n'] | mc => ['M', 'c'] | me => ['M', 'e']
  | nd => ['N', 'd'] | nl => ['N', 'l'] | no => ['N', 'o']
  | pc => ['P', 'c'] | pd => ['P', 'd'] | ps => ['P', 's'] | pe => ['P', 'e'] | pi => ['P', 'i']
  | pf => ['P', 'f'] | po => ['P', 'o']
  | sm => ['S', 'm'] | sc => ['S', 'c'] | sk => ['S', 'k'] | so => ['S', 'o']
  | zs => ['Z', 's'] | zl => ['Z', 'l'] | zp => ['Z', 'p']
  | cc => ['C', 'c'] | cf => ['C', 'f'] | cs => ['C', 's'] | co => ['C', 'o'] | cn => ['C', 'n']

def all : List Category :=
  letters ++ marks ++ numbers ++ punctuation ++ symbols ++ separators ++ others

def ofCode? (code : List Char) : Option Category := all.find? (·.code == code)

/-- `Lu26` is a run of 26 upper case letters; `LuLl23` is 23 pairs of an upper case letter and a
lower case one. -/
def table : List String := [
  "Cc32 Zs1 Po3 Sc1 Po3 Ps1 Pe1 Po1 Sm1 Po1 Pd1 Po2 Nd10 Po2 Sm3 Po2 Lu26 Ps1 Po1 Pe1 Sk1 Pc1",
  "Sk1 Ll26 Ps1 Sm1 Pe1 Sm1 Cc33 Zs1 Po1 Sc4 So1 Po1 Sk1 So1 Lo1 Pi1 Sm1 Cf1 So1 Sk1 So1 Sm1 No2",
  "Sk1 Ll1 Po2 Sk1 No1 Lo1 Pf1 No3 Po1 Lu23 Sm1 Lu7 Ll24 Sm1 Ll8 LuLl27 Lu1 Ll2 LuLl7 Lu1 Ll2",
  "LuLl23 Lu2 LlLu2 Ll3 Lu2 Ll1 Lu1 Ll1 Lu2 Ll1 Lu3 Ll2 Lu4 Ll1 Lu2 Ll1 Lu3 Ll3 Lu2 Ll1 Lu2",
  "LlLu2 Ll1 Lu2 Ll1 Lu1 Ll2 Lu1 Ll1 Lu2 Ll1 Lu3 Ll1 Lu1 Ll1 Lu2 Ll2 Lo1 Lu1 Ll3 Lo4 Lu1 Lt1 Ll1",
  "Lu1 Lt1 Ll1 Lu1 Lt1 LlLu8 Ll2 LuLl8 Lu1 Ll2 Lu1 Lt1 Ll1 Lu1 Ll1 Lu3 LlLu29 Ll7 Lu2 Ll1 Lu2",
  "Ll2 Lu1 Ll1 Lu4 LlLu4 Ll69 Lo1 Ll27 Lm18 Sk4 Lm12 Sk14 Lm5 Sk7 Lm1 Sk1 Lm1 Sk17 Mn112 LuLl2",
  "Lm1 Sk1 Lu1 Ll1 Cn2 Lm1 Ll3 Po1 Lu1 Cn4 Sk2 Lu1 Po1 Lu3 Cn1 Lu1 Cn1 Lu2 Ll1 Lu17 Cn1 Lu9 Ll35",
  "Lu1 Ll2 Lu3 Ll3 LuLl11 Lu1 Ll5 Lu1 Ll1 Sm1 Lu1 Ll1 Lu2 Ll2 Lu51 Ll48 LuLl17 So1 Mn5 Me2",
  "LuLl27 Lu2 LlLu6 Ll2 LuLl48 Cn1 Lu38 Cn2 Lm1 Po6 Ll41 Po1 Pd1 Cn2 So2 Sc1 Cn1 Mn45 Pd1 Mn1",
  "Po1 Mn2 Po1 Mn2 Po1 Mn1 Cn8 Lo27 Cn4 Lo4 Po2 Cn11 Cf6 Sm3 Po2 Sc1 Po2 So2 Mn11 Po1 Cf1 Po3",
  "Lo32 Lm1 Lo10 Mn21 Nd10 Po4 Lo2 Mn1 Lo99 Po1 Lo1 Mn7 Cf1 So1 Mn6 Lm2 Mn2 So1 Mn4 Lo2 Nd10 Lo3",
  "So2 Lo1 Po14 Cn1 Cf1 Lo1 Mn1 Lo30 Mn27 Cn2 Lo89 Mn11 Lo1 Cn14 Nd10 Lo33 Mn9 Lm2 So1 Po3 Lm1",
  "Cn2 Mn1 Sc2 Lo22 Mn4 Lm1 Mn9 Lm1 Mn3 Lm1 Mn5 Cn2 Po15 Cn1 Lo25 Mn3 Cn2 Po1 Cn1 Lo11 Cn5 Lo24",
  "Sk1 Lo6 Cn1 Cf2 Cn5 Mn9 Lo41 Lm1 Mn24 Cf1 Mn32 Mc1 Lo54 Mn1 Mc1 Mn1 Lo1 Mc3 Mn8 Mc4 Mn1 Mc2",
  "Lo1 Mn7 Lo10 Mn2 Po2 Nd10 Po1 Lm1 Lo15 Mn1 Mc2 Cn1 Lo8 Cn2 Lo2 Cn2 Lo22 Cn1 Lo7 Cn1 Lo1 Cn3",
  "Lo4 Cn2 Mn1 Lo1 Mc3 Mn4 Cn2 Mc2 Cn2 Mc2 Mn1 Lo1 Cn8 Mc1 Cn4 Lo2 Cn1 Lo3 Mn2 Cn2 Nd10 Lo2 Sc2",
  "No6 So1 Sc1 Lo1 Po1 Mn1 Cn2 Mn2 Mc1 Cn1 Lo6 Cn4 Lo2 Cn2 Lo22 Cn1 Lo7 Cn1 Lo2 Cn1 Lo2 Cn1 Lo2",
  "Cn2 Mn1 Cn1 Mc3 Mn2 Cn4 Mn2 Cn2 Mn3 Cn3 Mn1 Cn7 Lo4 Cn1 Lo1 Cn7 Nd10 Mn2 Lo3 Mn1 Po1 Cn10 Mn2",
  "Mc1 Cn1 Lo9 Cn1 Lo3 Cn1 Lo22 Cn1 Lo7 Cn1 Lo2 Cn1 Lo5 Cn2 Mn1 Lo1 Mc3 Mn5 Cn1 Mn2 Mc1 Cn1 Mc2",
  "Mn1 Cn2 Lo1 Cn15 Lo2 Mn2 Cn2 Nd10 Po1 Sc1 Cn7 Lo1 Mn6 Cn1 Mn1 Mc2 Cn1 Lo8 Cn2 Lo2 Cn2 Lo22",
  "Cn1 Lo7 Cn1 Lo2 Cn1 Lo5 Cn2 Mn1 Lo1 Mc1 Mn1 Mc1 Mn4 Cn2 Mc2 Cn2 Mc2 Mn1 Cn7 Mn2 Mc1 Cn4 Lo2",
  "Cn1 Lo3 Mn2 Cn2 Nd10 So1 Lo1 No6 Cn10 Mn1 Lo1 Cn1 Lo6 Cn3 Lo3 Cn1 Lo4 Cn3 Lo2 Cn1 Lo1 Cn1 Lo2",
  "Cn3 Lo2 Cn3 Lo3 Cn3 Lo12 Cn4 Mc2 Mn1 Mc2 Cn3 Mc3 Cn1 Mc3 Mn1 Cn2 Lo1 Cn6 Mc1 Cn14 Nd10 No3",
  "So6 Sc1 So1 Cn5 Mn1 Mc3 Mn1 Lo8 Cn1 Lo3 Cn1 Lo23 Cn1 Lo16 Cn2 Mn1 Lo1 Mn3 Mc4 Cn1 Mn3 Cn1 Mn4",
  "Cn7 Mn2 Cn1 Lo3 Cn2 Lo1 Cn2 Lo2 Mn2 Cn2 Nd10 Cn7 Po1 No7 So1 Lo1 Mn1 Mc2 Po1 Lo8 Cn1 Lo3 Cn1",
  "Lo23 Cn1 Lo10 Cn1 Lo5 Cn2 Mn1 Lo1 Mc1 Mn1 Mc5 Cn1 Mn1 Mc2 Cn1 Mc2 Mn2 Cn7 Mc2 Cn6 Lo2 Cn1 Lo2",
  "Mn2 Cn2 Nd10 Cn1 Lo2 Mc1 Cn12 Mn2 Mc2 Lo9 Cn1 Lo3 Cn1 Lo41 Mn2 Lo1 Mc3 Mn4 Cn1 Mc3 Cn1 Mc3",
  "Mn1 Lo1 So1 Cn4 Lo3 Mc1 No7 Lo3 Mn2 Cn2 Nd10 No9 So1 Lo6 Cn1 Mn1 Mc2 Cn1 Lo18 Cn3 Lo24 Cn1",
  "Lo9 Cn1 Lo1 Cn2 Lo7 Cn3 Mn1 Cn4 Mc3 Mn3 Cn1 Mn1 Cn1 Mc8 Cn6 Nd10 Cn2 Mc2 Po1 Cn12 Lo48 Mn1",
  "Lo2 Mn7 Cn4 Sc1 Lo6 Lm1 Mn8 Po1 Nd10 Po2 Cn37 Lo2 Cn1 Lo1 Cn1 Lo5 Cn1 Lo24 Cn1 Lo1 Cn1 Lo10",
  "Mn1 Lo2 Mn9 Lo1 Cn2 Lo5 Cn1 Lm1 Cn1 Mn7 Cn1 Nd10 Cn2 Lo4 Cn32 Lo1 So3 Po15 So1 Po1 So3 Mn2",
  "So6 Nd10 No10 SoMn3 PsPe2 Mc2 Lo8 Cn1 Lo36 Cn4 Mn14 Mc1 Mn5 Po1 Mn2 Lo5 Mn11 Cn1 Mn36 Cn1 So8",
  "Mn1 So6 Cn1 So2 Po5 So4 Po2 Cn37 Lo43 Mc2 Mn4 Mc1 Mn6 Mc1 Mn2 Mc2 Mn2 Lo1 Nd10 Po6 Lo6 Mc2",
  "Mn2 Lo4 Mn3 Lo1 Mc3 Lo2 Mc7 Lo3 Mn4 Lo13 Mn1 Mc2 Mn2 Mc6 Mn1 Lo1 Mc1 Nd10 Mc3 Mn1 So2 Lu38",
  "Cn1 Lu1 Cn5 Lu1 Cn2 Ll43 Po1 Lm1 Ll3 Lo329 Cn1 Lo4 Cn2 Lo7 Cn1 Lo1 Cn1 Lo4 Cn2 Lo41 Cn1 Lo4",
  "Cn2 Lo33 Cn1 Lo4 Cn2 Lo7 Cn1 Lo1 Cn1 Lo4 Cn2 Lo15 Cn1 Lo57 Cn1 Lo4 Cn2 Lo67 Cn2 Mn3 Po9 No20",
  "Cn3 Lo16 So10 Cn6 Lu86 Cn2 Ll6 Cn2 Pd1 Lo620 So1 Po1 Lo17 Zs1 Lo26 Ps1 Pe1 Cn3 Lo75 Po3 Nl3",
  "Lo8 Cn7 Lo18 Mn3 Mc1 Cn9 Lo19 Mn2 Mc1 Po2 Cn9 Lo18 Mn2 Cn12 Lo13 Cn1 Lo3 Cn1 Mn2 Cn12 Lo52",
  "Mn2 Mc1 Mn7 Mc8 Mn1 Mc2 Mn11 Po3 Lm1 Po3 Sc1 Lo1 Mn1 Cn2 Nd10 Cn6 No10 Cn6 Po6 Pd1 Po4 Mn3",
  "Cf1 Mn1 Nd10 Cn6 Lo35 Lm1 Lo53 Cn7 Lo5 Mn2 Lo34 Mn1 Lo1 Cn5 Lo70 Cn10 Lo31 Cn1 Mn3 Mc4 Mn2",
  "Mc3 Cn4 Mc2 Mn1 Mc6 Mn3 Cn4 So1 Cn3 Po2 Nd10 Lo30 Cn2 Lo5 Cn11 Lo44 Cn4 Lo26 Cn6 Nd10 No1 Cn3",
  "So34 Lo23 Mn2 Mc2 Mn1 Cn2 Po2 Lo53 Mc1 Mn1 Mc1 Mn7 Cn1 Mn1 Mc1 Mn1 Mc2 Mn8 Mc6 Mn10 Cn2 Mn1",
  "Nd10 Cn6 Nd10 Cn6 Po7 Lm1 Po6 Cn2 Mn14 Me1 Mn16 Cn49 Mn4 Mc1 Lo47 Mn1 Mc1 Mn5 Mc1 Mn1 Mc5 Mn1",
  "Mc2 Lo8 Cn1 Po2 Nd10 Po7 So10 Mn9 So9 Po3 Mn2 Mc1 Lo30 Mc1 Mn4 Mc2 Mn2 Mc1 Mn3 Lo2 Nd10 Lo44",
  "Mn1 Mc1 Mn2 Mc3 Mn1 Mc1 Mn3 Mc2 Cn8 Po4 Lo36 Mc8 Mn8 Mc2 Mn2 Cn3 Po5 Nd10 Cn3 Lo3 Nd10 Lo30",
  "Lm6 Po2 Ll9 Lu1 Ll1 Cn5 Lu43 Cn2 Lu3 Po8 Cn8 Mn3 Po1 Mn13 Mc1 Mn7 Lo4 Mn1 Lo6 Mn1 Lo2 Mc1 Mn2",
  "Lo1 Cn5 Ll44 Lm63 Ll13 Lm1 Ll34 Lm37 Mn64 LuLl74 Lu1 Ll9 LuLl48 Lu1 Ll9 Lu8 Ll6 Cn2 Lu6 Cn2",
  "Ll8 Lu8 Ll8 Lu8 Ll6 Cn2 Lu6 Cn2 Ll8 CnLu4 Ll8 Lu8 Ll14 Cn2 Ll8 Lt8 Ll8 Lt8 Ll8 Lt8 Ll5 Cn1",
  "Ll2 Lu4 Lt1 Sk1 Ll1 Sk3 Ll3 Cn1 Ll2 Lu4 Lt1 Sk3 Ll4 Cn2 Ll2 Lu4 Cn1 Sk3 Ll8 Lu5 Sk3 Cn2 Ll3",
  "Cn1 Ll2 Lu4 Lt1 Sk2 Cn1 Zs11 Cf5 Pd6 Po2 Pi1 Pf1 Ps1 Pi2 Pf1 Ps1 Pi1 Po8 Zl1 Zp1 Cf5 Zs1 Po9",
  "Pi1 Pf1 Po4 Pc2 Po3 Sm1 Ps1 Pe1 Po11 Sm1 Po1 Pc1 Po10 Zs1 Cf5 Cn1 Cf10 No1 Lm1 Cn2 No6 Sm3",
  "Ps1 Pe1 Lm1 No10 Sm3 Ps1 Pe1 Cn1 Lm13 Cn3 Sc33 Cn15 Mn13 Me4 Mn1 Me3 Mn12 Cn15 So2 Lu1 So4",
  "Lu1 So2 Ll1 Lu3 Ll2 Lu3 Ll1 So1 Lu1 So2 Sm1 Lu5 So6 LuSo3 Lu4 So1 Ll1 Lu4 Ll1 Lo4 Ll1 So2 Ll2",
  "Lu2 Sm5 Lu1 Ll4 So1 Sm1 So2 Ll1 So1 No16 Nl35 Lu1 Ll1 Nl4 No1 So2 Cn4 Sm5 So5 Sm2 So4 Sm1 So2",
  "Sm1 So2 Sm1 So7 Sm1 So31 Sm2 So2 Sm1 So1 Sm1 So31 Sm268 So8 PsPe2 So20 Sm2 So7 Ps1 Pe1 So81",
  "Sm1 So30 Sm25 So40 Sm6 So72 Cn22 So11 Cn21 No60 So78 No22 So183 Sm1 So9 Sm1 So54 Sm8 So111",
  "Sm1 So248 PsPe7 No30 So44 Sm5 Ps1 Pe1 Sm31 PsPe5 Sm16 So256 Sm131 PsPe11 Sm63 PsPe2 Sm32 Ps1",
  "Pe1 Sm258 So48 Sm21 So2 Sm6 So39 Cn2 So32 Cn1 So105 Lu48 Ll48 Lu1 Ll1 Lu3 Ll2 LuLl3 Lu4 Ll1",
  "Lu1 Ll2 Lu1 Ll6 Lm2 Lu3 LlLu49 Ll2 So6 LuLl2 Mn3 Lu1 Ll1 Cn5 Po4 No1 Po2 Ll38 Cn1 Ll1 Cn5 Ll1",
  "Cn2 Lo56 Cn7 Lm1 Po1 Cn14 Mn1 Lo23 Cn9 Lo7 Cn1 Lo7 Cn1 Lo7 Cn1 Lo7 Cn1 Lo7 Cn1 Lo7 Cn1 Lo7",
  "Cn1 Lo7 Cn1 Mn32 Po2 PiPf2 Po3 Pi1 Pf1 Po1 Pi1 Pf1 Po9 Pd1 Po2 Pd1 Po1 Pi1 Pf1 Po2 Pi1 Pf1",
  "PsPe4 Po5 Lm1 Po10 Pd2 Po4 Pd1 Po1 Ps1 Po13 So2 Po3 PsPe4 Pd1 Cn34 So26 Cn1 So89 Cn12 So214",
  "Cn26 So16 Zs1 Po3 So1 Lm1 Lo1 Nl1 PsPe5 So2 PsPe4 Pd1 Ps1 Pe2 So1 Nl9 Mn4 Mc2 Pd1 Lm5 So2 Nl3",
  "Lm1 Lo1 Po1 So2 Cn1 Lo86 Cn2 Mn2 Sk2 Lm2 Lo1 Pd1 Lo90 Po1 Lm3 Lo1 Cn5 Lo43 Cn1 Lo94 Cn1 So2",
  "No4 So10 Lo32 So38 Cn9 So1 Lo16 So31 Cn1 No10 So30 No8 So1 No15 So32 No10 So39 No15 So320",
  "Lo6592 So64 Lo21013 Lm1 Lo1143 Cn3 So55 Cn9 Lo40 Lm6 Po2 Lo268 Lm1 Po3 Lo16 Nd10 Lo2 Cn20",
  "LuLl23 Lo1 Mn1 Me3 Po1 Mn10 Po1 Lm1 LuLl14 Lm2 Mn2 Lo70 Nl10 Mn2 Po6 Cn8 Sk23 Lm9 Sk2 LuLl6",
  "Lu1 Ll3 LuLl31 Lm1 Ll8 LuLl2 Lu2 LlLu4 Ll1 Lm1 Sk2 LuLl2 Lo1 Lu1 Ll1 Lu1 Ll3 LuLl10 Lu5 Ll1",
  "Lu5 LlLu7 Ll1 Lu4 Ll1 Lu1 Ll1 Lu2 Ll1 Cn2 Lu1 LlCn2 LlLu4 Cn21 Lm3 Lu1 Ll1 Lo1 Lm2 Ll1 Lo7",
  "Mn1 Lo3 Mn1 Lo4 Mn1 Lo23 Mc2 Mn2 Mc1 So4 Mn1 Cn3 No6 So2 Sc1 So1 Cn6 Lo52 Po4 Cn8 Mc2 Lo50",
  "Mc16 Mn2 Cn8 Po2 Nd10 Cn6 Mn18 Lo6 Po3 Lo1 Po1 Lo2 Mn1 Nd10 Lo28 Mn8 Po2 Lo23 Mn11 Mc2 Cn11",
  "Po1 Lo29 Cn3 Mn3 Mc1 Lo47 Mn1 Mc2 Mn4 Mc2 Mn2 Mc3 Po13 Cn1 Lm1 Nd10 Cn4 Po2 Lo5 Mn1 Lm1 Lo9",
  "Nd10 Lo5 Cn1 Lo41 Mn6 Mc2 Mn2 Mc2 Mn2 Cn9 Lo3 Mn1 Lo8 Mn1 Mc1 Cn2 Nd10 Cn2 Po4 Lo16 Lm1 Lo6",
  "So3 Lo1 Mc1 Mn1 Mc1 Lo50 Mn1 Lo1 Mn3 Lo2 Mn2 Lo5 Mn2 Lo1 Mn1 Lo1 Cn24 Lo2 Lm1 Po2 Lo11 Mc1",
  "Mn2 Mc2 Po2 Lo1 Lm2 Mc1 Mn1 Cn10 Lo6 Cn2 Lo6 Cn2 Lo6 Cn9 Lo7 Cn1 Lo7 Cn1 Ll43 Sk1 Lm4 Ll9 Lm1",
  "Sk2 Cn4 Ll80 Lo35 Mc2 Mn1 Mc2 Mn1 Mc2 Po1 Mc1 Mn1 Cn2 Nd10 Cn6 Lo11172 Cn12 Lo23 Cn4 Lo49 Cn4",
  "Cs2048 Co6400 Lo366 Cn2 Lo106 Cn38 Ll7 Cn12 Ll5 Cn5 Lo1 Mn1 Lo10 Sm1 Lo13 Cn1 Lo5 Cn1 Lo1 Cn1",
  "Lo2 Cn1 Lo2 Cn1 Lo108 Sk17 Cn16 Lo363 Pe1 Ps1 So16 Lo64 Cn2 Lo54 Cn7 So1 Cn32 Lo12 Sc1 So3",
  "Mn16 Po7 Ps1 Pe1 Po1 Cn6 Mn16 Po1 Pd2 Pc2 PsPe8 Po2 Ps1 Pe1 Po4 Pc3 Po3 Cn1 Po4 Pd1 PsPe3 Po3",
  "Sm1 Pd1 Sm3 Cn1 Po1 Sc1 Po2 Cn4 Lo5 Cn1 Lo135 Cn2 Cf1 Cn1 Po3 Sc1 Po3 Ps1 Pe1 Po1 Sm1 Po1 Pd1",
  "Po2 Nd10 Po2 Sm3 Po2 Lu26 Ps1 Po1 Pe1 Sk1 Pc1 Sk1 Ll26 Ps1 Sm1 Pe1 Sm1 Ps1 Pe1 Po1 Ps1 Pe1",
  "Po2 Lo10 Lm1 Lo45 Lm2 Lo31 Cn3 Lo6 Cn2 Lo6 Cn2 Lo6 Cn2 Lo3 Cn3 Sc2 Sm1 Sk1 So1 Sc2 Cn1 So1",
  "Sm4 So2 Cn10 Cf3 So2 Cn2 Lo12 Cn1 Lo26 Cn1 Lo19 Cn1 Lo2 Cn1 Lo15 Cn2 Lo14 Cn34 Lo123 Cn5 Po3",
  "Cn4 No45 Cn3 So9 Nl53 No4 So17 No2 So3 Cn1 So13 Cn3 So1 Cn47 So45 Mn1 Cn130 Lo29 Cn3 Lo49",
  "Cn15 Mn1 No27 Cn4 Lo32 No4 Cn9 Lo20 Nl1 Lo8 Nl1 Cn5 Lo38 Mn5 Cn5 Lo30 Cn1 Po1 Lo36 Cn4 Lo8",
  "Po1 Nl5 Cn42 Lu40 Ll40 Lo78 Cn2 Nd10 Cn6 Lu36 Cn4 Ll36 Cn4 Lo40 Cn8 Lo52 Cn11 Po1 Lu11 Cn1",
  "Lu15 Cn1 Lu7 Cn1 Lu2 Cn1 Ll11 Cn1 Ll15 Cn1 Ll7 Cn1 Ll2 Cn3 Lo52 Cn12 Lo311 Cn9 Lo22 Cn10 Lo8",
  "Cn24 Lm6 Cn1 Lm42 Cn1 Lm9 Cn69 Lo6 Cn2 Lo1 Cn1 Lo44 Cn1 Lo2 Cn3 Lo1 Cn2 Lo23 Cn1 Po1 No8 Lo23",
  "So2 No7 Lo31 Cn8 No9 Cn48 Lo19 Cn1 Lo2 Cn5 No5 Lo22 No6 Cn3 Po1 Lo26 Cn5 Po1 Cn64 Lo56 Cn4",
  "No2 Lo2 No16 Cn2 No46 Lo1 Mn3 Cn1 Mn2 Cn5 Mn4 Lo4 Cn1 Lo3 Cn1 Lo29 Cn2 Mn3 Cn4 Mn1 No9 Cn7",
  "Po9 Cn7 Lo29 No2 Po1 Lo29 No3 Cn32 Lo8 So1 Lo28 Mn2 Cn4 No5 Po7 Cn9 Lo54 Cn3 Po7 Lo22 Cn2 No8",
  "Lo19 Cn5 No8 Lo18 Cn7 Po4 Cn12 No7 Cn80 Lo73 Cn55 Lu51 Cn13 Ll51 Cn7 No6 Lo36 Mn4 Cn8 Nd10",
  "Cn6 Nd10 Lo4 Lm1 Lo1 Lu22 Cn3 Mn5 Pd1 Lm1 Ll22 Cn8 Sm2 Cn208 No31 Cn1 Lo42 Cn1 Mn2 Pd1 Cn2",
  "Lo2 Cn16 Lo3 Cn55 Mn4 Lo29 No10 Lo1 Cn8 Lo22 Mn11 No4 Po5 Cn22 Lo18 Mn4 Po4 Cn38 Lo21 No7",
  "Cn20 Lo23 Cn9 Mc1 Mn1 Mc1 Lo53 Mn15 Po7 Cn4 No20 Nd10 Mn1 Lo2 Mn2 Lo1 Cn9 Mn3 Mc1 Lo45 Mc3",
  "Mn4 Mc2 Mn2 Po2 Cf1 Po4 Mn1 Cn10 Cf1 Cn2 Lo25 Cn7 Nd10 Cn6 Mn3 Lo36 Mn5 Mc1 Mn8 Cn1 Nd10 Po4",
  "Lo1 Mc2 Lo1 Cn8 Lo35 Mn1 Po2 Lo1 Cn9 Mn2 Mc1 Lo48 Mc3 Mn9 Mc2 Lo4 Po4 Mn4 Po1 Mc1 Mn1 Nd10",
  "Lo1 Po1 Lo1 Po3 Cn1 No20 Cn11 Lo18 Cn1 Lo25 Mc3 Mn3 Mc2 Mn1 Mc1 Mn2 Po6 Mn1 Lo2 Mn1 Cn62 Lo7",
  "Cn1 Lo1 Cn1 Lo4 Cn1 Lo15 Cn1 Lo10 Po1 Cn6 Lo47 Mn1 Mc3 Mn8 Cn5 Nd10 Cn6 Mn2 Mc2 Cn1 Lo8 Cn2",
  "Lo2 Cn2 Lo22 Cn1 Lo7 Cn1 Lo2 Cn1 Lo5 Cn1 Mn2 Lo1 Mc2 Mn1 Mc4 Cn2 Mc2 Cn2 Mc3 Cn2 Lo1 Cn6 Mc1",
  "Cn5 Lo5 Mc2 Cn2 Mn7 Cn3 Mn5 Cn11 Lo10 Cn1 Lo1 Cn2 Lo1 Cn1 Lo38 Cn1 Lo1 Mc3 Mn6 Cn1 Mc1 Cn2",
  "Mc1 Cn1 Mc4 Cn1 Mc2 Mn1 Mc1 MnLo2 Po2 Cn1 Po2 Cn8 Mn2 Cn29 Lo53 Mc3 Mn8 Mc2 Mn3 Mc1 Mn1 Lo4",
  "Po5 Nd10 Po2 Cn1 Po1 Mn1 Lo3 Cn30 Lo48 Mc3 Mn6 Mc1 Mn1 Mc4 Mn2 Mc1 Mn2 Lo2 Po1 Lo1 Cn8 Nd10",
  "Cn166 Lo47 Mc3 Mn4 Cn2 Mc4 Mn2 Mc1 Mn2 Po23 Lo4 Mn2 Cn34 Lo48 Mc3 Mn8 Mc2 Mn1 Mc1 Mn2 Po3 Lo1",
  "Cn11 Nd10 Cn6 Po13 Cn19 Lo43 Mn1 Mc1 Mn1 Mc2 Mn6 Mc1 Mn1 Lo1 Po1 Cn6 Nd10 Cn6 Nd20 Cn28 Lo27",
  "Cn2 Mn1 Mc1 Mn1 Mc2 Mn4 Mc1 Mn5 Cn4 Nd10 No2 Po3 So1 Lo7 Cn185 Lo44 Mc3 Mn9 Mc1 Mn2 Po1 Cn100",
  "Lu32 Ll32 Nd10 No9 Cn12 Lo8 Cn2 Lo1 Cn2 Lo8 Cn1 Lo2 Cn1 Lo24 Mc6 Cn1 Mc2 Cn2 Mn2 Mc1 Mn1",
  "LoMc2 Mn1 Po3 Cn9 Nd10 Cn70 Lo8 Cn2 Lo39 Mc3 Mn4 Cn2 Mn2 Mc4 Mn1 Lo1 Po1 Lo1 Mc1 Cn27 Lo1",
  "Mn10 Lo40 Mn6 Mc1 Lo1 Mn4 Po8 Mn1 Cn8 Lo1 Mn6 Mc2 Mn3 Lo46 Mn13 Mc1 Mn2 Po3 Lo1 Po5 Cn13 Lo73",
  "Cn7 Po10 Cn182 Lo33 Po1 Cn14 Nd10 Cn6 Lo9 Cn1 Lo37 Mc1 Mn7 Cn1 Mn6 Mc1 Mn1 Lo1 Po5 Cn10 Nd10",
  "No19 Cn3 Po2 Lo30 Cn2 Mn22 Cn1 Mc1 Mn7 Mc1 Mn2 Mc1 Mn2 Cn73 Lo7 Cn1 Lo2 Cn1 Lo38 Mn6 Cn3 Mn1",
  "Cn1 Mn2 Cn1 Mn7 Lo1 Mn1 Cn8 Nd10 Cn6 Lo6 Cn1 Lo2 Cn1 Lo32 Mc5 Cn1 Mn2 Cn1 Mc2 Mn1 Mc1 Mn1 Lo1",
  "Cn7 Nd10 Cn310 Lo19 Mn2 Mc2 Po2 Cn7 Mn2 Lo1 Mc1 Lo13 Cn1 Lo34 Mc2 Mn5 Cn3 Mc2 Mn1 Mc1 Mn1",
  "Po13 Nd10 Mn1 Cn85 Lo1 Cn15 No21 So8 Sc4 So17 Cn13 Po1 Lo922 Cn102 Nl111 Cn1 Po5 Cn11 Lo196",
  "Cn2636 Lo97 Po2 Cn13 Lo1072 Cf16 Mn1 Lo6 Mn15 Cn10 Lo3995 Cn5 Lo583 Cn6841 Lo30 Mn12 Mc3 Mn3",
  "Nd10 Cn1734 Lo569 Cn7 Lo31 Cn1 Nd10 Cn4 Po2 Lo79 Cn1 Nd10 Cn6 Lo30 Cn2 Mn5 Po1 Cn10 Lo48 Mn7",
  "Po5 So4 Lm4 Po1 So1 Cn10 Nd10 Cn1 No7 Cn1 Lo21 Cn5 Lo19 Cn432 Lm3 Lo40 Lm2 Po3 Nd10 Cn198",
  "Lu32 Ll32 No23 Po4 Cn101 Lo75 Cn4 Mn1 Lo1 Mc55 Cn7 Mn4 Lm13 Cn64 Lm2 Po1 Lm1 Mn1 Cn11 Mc2",
  "Cn14 Lo6136 Cn8 Lo1238 Cn41 Lo10 Cn8935 Lm4 Cn1 Lm7 Cn1 Lm2 Cn1 Lo291 Cn15 Lo1 Cn29 Lo3 Cn2",
  "Lo1 Cn14 Lo4 Cn8 Lo396 Cn2308 Lo107 Cn5 Lo13 Cn3 Lo9 Cn7 Lo10 Cn2 So1 Mn2 Po1 Cf4 Cn3932",
  "So240 Nd10 Cn6 So436 Cn76 Mn46 Cn2 Mn23 Cn9 So116 Cn60 So246 Cn10 So39 Cn2 So60 Mc2 Mn3 So3",
  "Mc6 Cf8 Mn8 So2 Mn7 So30 Mn4 So61 Cn21 So66 Mn3 So1 Cn122 No20 Cn12 No20 Cn12 So87 Cn9 No25",
  "Cn135 Lu26 Ll26 Lu26 Ll7 Cn1 Ll18 Lu26 Ll26 Lu1 Cn1 Lu2 Cn2 Lu1 Cn2 Lu2 Cn2 Lu4 Cn1 Lu8 Ll4",
  "Cn1 Ll1 Cn1 Ll7 Cn1 Ll11 Lu26 Ll26 Lu2 Cn1 Lu4 Cn2 Lu8 Cn1 Lu7 Cn1 Ll26 Lu2 Cn1 Lu4 Cn1 Lu5",
  "Cn1 Lu1 Cn3 Lu7 Cn1 Ll26 Lu26 Ll26 Lu26 Ll26 Lu26 Ll26 Lu26 Ll26 Lu26 Ll26 Lu26 Ll28 Cn2 Lu25",
  "Sm1 Ll25 Sm1 Ll6 Lu25 Sm1 Ll25 Sm1 Ll6 Lu25 Sm1 Ll25 Sm1 Ll6 Lu25 Sm1 Ll25 Sm1 Ll6 Lu25 Sm1",
  "Ll25 Sm1 Ll6 Lu1 Ll1 Cn2 Nd50 So512 Mn55 So4 Mn50 So8 Mn1 So14 Mn1 So2 Po5 Cn15 Mn5 Cn1 Mn15",
  "Cn1104 Ll10 Lo1 Ll20 Cn6 Ll6 Cn213 Mn7 Cn1 Mn17 Cn2 Mn7 Cn1 Mn2 Cn1 Mn5 Cn5 Lm62 Cn33 Mn1",
  "Cn112 Lo45 Cn3 Mn7 Lm7 Cn2 Nd10 Cn4 Lo1 So1 Cn320 Lo30 Mn1 Cn17 Lo44 Mn4 Nd10 Cn5 Sc1 Cn464",
  "Lo27 Lm1 Mn4 Nd10 Cn214 Lo30 Mn2 Lo1 Nd10 Cn4 Po1 Cn480 Lo7 Cn1 Lo4 Cn1 Lo2 Cn1 Lo15 Cn1",
  "Lo197 Cn2 No9 Mn7 Cn41 Lu34 Ll34 Mn7 Lm1 Cn4 Nd10 Cn4 Po2 Cn785 No59 So1 No3 Sc1 No4 Cn76",
  "No45 So1 No15 Cn194 Lo4 Cn1 Lo27 Cn1 Lo2 Cn1 Lo1 Cn2 Lo1 Cn1 Lo10 Cn1 Lo4 CnLo2 Cn6 Lo1 Cn4",
  "LoCn3 Lo3 Cn1 Lo2 Cn1 Lo1 Cn2 LoCn5 Lo2 Cn1 Lo1 Cn2 Lo4 Cn1 Lo7 Cn1 Lo4 Cn1 Lo4 Cn1 Lo1 Cn1",
  "Lo10 Cn1 Lo17 Cn5 Lo3 Cn1 Lo5 Cn1 Lo17 Cn52 Sm2 Cn270 So44 Cn4 So100 Cn12 So15 Cn2 So15 Cn1",
  "So15 Cn1 So37 Cn10 No13 So161 Cn56 So29 Cn13 So44 Cn4 So9 Cn7 So2 Cn14 So6 Cn154 So251 Sk5",
  "So728 Cn4 So17 Cn3 So13 Cn3 So119 Cn4 So95 Cn6 So12 Cn4 So1 Cn15 So12 Cn4 So56 Cn8 So10 Cn6",
  "So40 Cn8 So30 Cn2 So12 Cn4 So2 Cn62 So340 Cn12 So14 Cn2 So13 Cn3 So10 Cn5 So56 Cn7 So15 Cn2",
  "So11 Cn6 So9 Cn7 So147 Cn1 So92 Nd10 Cn1030 Lo42720 Cn32 Lo4154 Cn6 Lo222 Cn2 Lo5762 Cn14",
  "Lo7473 Cn15 Lo622 Cn2466 Lo542 Cn1506 Lo4939 Cn5 Lo4192 Cn711761 Cf1 Cn30 Cf96 Cn128 Mn240",
  "Cn65040 Co65534 Cn2 Co65534 Cn2"]

/-- Categories in turn and how often the turn is repeated. -/
structure Run where
  turn : List Category
  times : Nat
  deriving Repr

def Run.length (r : Run) : Nat := r.turn.length * r.times

def Run.ofText? : List Char → Option Run
  | a :: b :: digits@(d :: _) =>
    if d.isDigit then do
      let turn ← ofCode? [a, b]
      return ⟨[turn], Nat.ofDigitChars 10 digits 0⟩
    else
      match digits with
      | c :: d :: digits => do
        let first ← ofCode? [a, b]
        let second ← ofCode? [c, d]
        return ⟨[first, second], Nat.ofDigitChars 10 digits 0⟩
      | _ => none
  | _ => none

def runs : List Run :=
  (table.flatMap (·.splitOn " ")).filterMap (Run.ofText? ·.toList)

/-- The category and the ends of every stretch of the code points, from a code point on. -/
def stretches (start : Nat) : List Run → List (Category × Nat × Nat)
  | [] => [(cn, start, CharSet.lastCode)]
  | ⟨[c], n⟩ :: rest => (c, start, start + n - 1) :: stretches (start + n) rest
  | r :: rest =>
    let places := (List.replicate r.times r.turn).flatten.zipIdx start
    places.map (fun (c, n) => (c, n, n)) ++ stretches (start + r.length) rest

/-- The characters of some categories. Surrogates are none. -/
def set (cs : List Category) : CharSet :=
  CharSet.ofAscending <| (stretches 0 runs).filterMap fun (c, first, last) =>
    if cs.contains c && c != .cs then some (first, last) else none

end Category
end Proctor.Pattern

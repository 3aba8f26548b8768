import TagLint.Unicode.Packed

/-!
The sets of code points from which the properties without values are put together, and the letters
and numbers that version 17 of the standard adds to those of which names are made. All other tables
follow version 16.
-/
namespace TagLint.Unicode

/-- Characters that count as letters, apart from letters and letter-like numbers. -/
def otherAlphabetic : CharSet := Packed.set [
  "w00TCnID10111110XAAWHC16G0Y86432140W40UFY9AY81381213YD0WTB366JWN12E1152A1T2WR62121A0A1T2WR4412",
  "140U130B2WR71211L1M242WR6212191A1U0WS43212A0W94WQ6121281B1T2WR6121281B1F0C3WR61212A0A1T2XD5101",
  "7I1WU026I0Y602511G0a8I9A1W4YHB1023N342122633DB10A3Wr91U1U1U1X4Ib21W30YPB48c54WQ92JXC1B2WI4WHEW",
  "T2U821WQAWJIi9W2WtOWKXh0W0WWXM7W31gD080N4XQ1WJF10WQ0W74SBWE3WHBW60X5DC081WE2WJ0122150WD450cK7q",
  "Y10XbR4WrR21153uD3X30fB1XH0dB2WMDWE1B2WE890WU2W5BI1WQ2WHCE1XU8206020a29N3WR62121A0A1XM81020131",
  "1YAC12YDHcK626T1XKE10YDAYADd9CcU511213010ZI62540S9WB413IAWFDi4716XLL1DYT53011121030X441113g739",
  "110WH632mlSGYsK01WN73Y01pi50ei561G261114Y70XeU0XY9P6P6P"]

/-- Characters that count as small letters, apart from small letters. -/
def otherLower : CharSet := Packed.set [
  "aF0F0l5871U4Y30WL0YnG0YcJX0D0W3W5r70D0GCbPFwBPXVG1WWlE1bO0Z5231wT390tlE0221WA18WvpGWU"]

/-- Characters that count as capital letters, apart from capital letters. -/
def otherUpper : CharSet := Packed.set [
  "dwJFw1PYyoPP6P6P"]

/-- Characters of mathematics, apart from its symbols. -/
def otherMath : CharSet := Packed.set [
  "Y10xD220Q121ck80R2B0W13O1E1X3C403144I04029103460312112153354XD4231111101421414H2110161061eB3aD",
  "110O0H0jB1C854512134E01025O1WQ010T391g11W09i0LX13W11WumS01040bP010WupTXM1X8112021231B10161X213",
  "27161R131410361fT2O1O1U1O1U1O1U1O1U1O172WIavL31Q1110201913101060401010121110201010101011102316",
  "131310191G52141G"]

/-- Characters that extend the one before them, apart from marks without a width. -/
def otherGraphemeExtend : CharSet := Packed.set [
  "XnE0O0gH0O0Y90O0cF010411191YA0O0YQ0F0Xj10U0WX10501051Y80X91WXP0Ze61WWdB0YF0rw21ZuL0YN0dG0E090Y",
  "3090201250c70C0cO0dE0pD0C0WnK0qk81uyN165vtt7Y2"]

def changesWhenLowercased : CharSet := Packed.set [
  "X3PY8M16W2010101010101010101010101010101010101010101010101010101020101010101010102010101010101",
  "0101010101010101010101010101010101110103110111223111231111010111020111210113071111110101010101",
  "0101020101010101010101021101210101010101010101010101010101010101010101010101010101010107111201",
  "310101010eA0103080601210111G18W408010101010101010101010105020112WJWH01010101010101010101010101",
  "0101010901010101010101010101010101010101010101010101010101010111010101010102010101010101010101",
  "010101010101010101010101010101010101010101010101010101010101010101010101010102W6YV6W61050s9XNX",
  "dP06WB22fA010101010101010101010101010101010101010101010101010101010101010101010101010101010101",
  "0101010101010101010101010101010101010101010101010101010101010101090101010101010101010101010101",
  "0101010101010101010101010101010101010101010101010101010101010101010109785A78785B010101087O7878",
  "784B4B3C4B4eI03160WEFJ0vCPWxBWGWH0122010101310208210101010101010101010101010101010101010101010",
  "101010101010101010101010101010101010101010101010101010801040WWeM010101010101010101010101010101",
  "010101010101010J010101010101010101010101010ZB0101010101010301010101010101010101010101010101010",
  "10101010101010101010101010A0101110101010401020103010101010101010101014141010101010101013101130",
  "50101010O0sbQPWdCW8ZCW4a1A1E1611Wv3WJa2LXzMW0rt2W0WWpKW2"]

def changesWhenUppercased : CharSet := Packed.set [
  "Y4PWR0WAN1710101010101010101010101010101010101010101010101010101010201010101010101110101010101",
  "0101010101010101010101010101010101020101220102030502032202010102040203010203010511111101010101",
  "0101011101010101010101011111030101010101010101010101010101010101010103010101010101010108021104",
  "0101010151110113113142011207020113550A1aB0WC0103032I0RW31132101010101010101010101014102020WLWG",
  "1010101010101010101010101010101010901010101010101010101010101010101010101010101010101010201010",
  "1010101110101010101010101010101010101010101010101010101010101010101010101010101010101010101010",
  "1010101010WIW7YV5WB22tG5Xd8810cL030G0YL0101010101010101010101010101010101010101010101010101010",
  "1010101010101010101010101010101010101010101010101010101010101010101010101010101010101010101016",
  "5010101010101010101010101010101010101010101010101010101010101010101010101010101010101010101010",
  "1885A78785A7878D2WL114010321140332187A21140fR0W2F40w6PWy2WG10311010106020A01010101010101010101",
  "0101010101010101010101010101010101010101010101010101010101010101010101010101010801040CW61050WW",
  "cQ010101010101010101010101010101010101010101010J010101010101010101010101010ZB01010101010103010",
  "1010101010101010101010101010101010101010101010101010101010A01020101010104040112010101010101010",
  "1010B01010101010101040102030501010Q0wN0SXHqYE6C4WYBPWdKW8ZCW4a0A1E1611WvSWJZ1LXzMW0rt2W0WWpMW2"]

def changesWhenTitlecased : CharSet := Packed.set [
  "Y4PWR0WAN1710101010101010101010101010101010101010101010101010101010201010101010101110101010101",
  "0101010101010101010101010101010101020101220102030502032202010102040203010203010401111101010101",
  "0101010111010101010101010121010301010101010101010101010101010101010101030101010101010101080211",
  "040101010151110113113142011207020113550A1aB0WC0103032I0RW31132101010101010101010101014102020WL",
  "WG10101010101010101010101010101010109010101010101010101010101010101010101010101010101010102010",
  "1010101011101010101010101010101010101010101010101010101010101010101010101010101010101010101010",
  "101010101010WIW7Yv75Xd8810cL030G0YL01010101010101010101010101010101010101010101010101010101010",
  "1010101010101010101010101010101010101010101010101010101010101010101010101010101010101010165010",
  "1010101010101010101010101010101010101010101010101010101010101010101010101010101010101010101885",
  "A78785A7878D2787878411603211832187A211g10W2F40w6PWy2WG10311010106020A0101010101010101010101010",
  "10101010101010101010101010101010101010101010101010101010101010101010101010801040CW61050WWcQ010",
  "101010101010101010101010101010101010101010J010101010101010101010101010ZB0101010101010301010101",
  "01010101010101010101010101010101010101010101010101010A010201010101040401120101010101010101010B",
  "01010101010101040102030501010Q0wN0SXHqYE6C4WYBPWdKW8ZCW4a0A1E1611WvSWJZ1LXzMW0rt2W0WWpMW2"]

def changesWhenCasefolded : CharSet := Packed.set [
  "X3PXS0AM17W10101010101010101010101010101010101010101010101010101010201010101010101011101010101",
  "0101010101010101010101010101010101011101010111011122311123111101011102011121011307111111010101",
  "0101010102010101010101010102110121010101010101010101010101010101010101010101010101010101010711",
  "1201310101010cT0WB0103080601210111G18M0C231101010101010101010101010112110112WJWH01010101010101",
  "0101010101010101010901010101010101010101010101010101010101010101010101010111010101010102010101",
  "010101010101010101010101010101010101010101010101010101010101010101010101010101010101010102W6WH",
  "0XyJW61050v45Xd896WB22fA0101010101010101010101010101010101010101010101010101010101010101010101",
  "0101010101010101010101010101010101010101010101010101010101010101010101010101010512010101010101",
  "01010101010101010101010101010101010101010101010101010101010101010101010101010101010109785A7878",
  "5B010101087GWG22255225B3C45225eI03160WEFJ0vCPWxBWGWH012201010131020821010101010101010101010101",
  "0101010101010101010101010101010101010101010101010101010101010101010101010801040WWeM01010101010",
  "1010101010101010101010101010101010J010101010101010101010101010ZB010101010101030101010101010101",
  "010101010101010101010101010101010101010101010A010111010101040102010301010101010101010101414101",
  "010101010101310113050101010O0xMXHqYE6C4WXAPWdCW8ZCW4a1A1E1611Wv3WJa2LXzMW0rt2W0WWpKW2"]

def notStartingNormalized : CharSet := Packed.set [
  "xM0XvG0Z30eVU1WsdJ5i31YN010101010101010e81"]

/-- Parts of names whose normal forms are none. -/
def notContinuingNormalized : CharSet := Packed.set [
  "xM0hVK1WsdJ5i31YN010101010101010"]

def dash : CharSet := Packed.set [
  "WE0Wi80WK0YtM0WX60XZB5WU0W80F0hI0Yb7020W0140S0jC0J0YI0WssH1W60A0aE0YuM0f80"]

/-- Characters that are not to be used. -/
def deprecated : CharSet := Packed.set [
  "fJ0WgJ0XhD010XaC1XfD5rF1zkgG0"]

def diacritic : CharSet := Packed.set [
  "Y1010X90604021l7a31755H14091d54bN0WOWD10111110Z7741ZA14132X5QXTAWRAW31Z27WA9GRWU0G033S0XC0G0YH",
  "0G0YH0G0WG2WT0G070YQ0YH0G0YH0G0YG1G0Z00YI0C510YE0D4XD1R0101041X4211X00YJ011W9144P610A1rN2zI1U0",
  "ZOA90g62eD0K720WHE2AYB0F0W78WN1WR0B1X41X25XKO406022WJX0WHW45BW6AjB012B2D2D2D1YiQ2f70lA5YC3Y20W",
  "VdR0C110S1XK1EW2Y92YG1C0W60ZR0RHWQ3W50Y20C0W50ZP2X33WK0Y7492Z41qXT0tPFdM010WG0WE1X50tK0Wc551WA",
  "18pH240aA1nD5W70Q4hR2X8AWI3b60WA0XA1YR1X00XE092YB1aN1XI1G0O634XR211D1Y2030YU1d31Z20YP1YM0dL1dA",
  "140a10XL0I0XJ0iI0dA011XJ0iM1N0amOEgyB0XnG4WS6n61mJGXI1mWE31611dd1WE2MmH2358726U3YvPWUb86h30WU3",
  "tM1sN6YG212"]

def emoji : CharSet := Packed.set [
  "W406059YI040dhH0C0bU0M0XS5F1gQ1C0aB0PA42bD0cE1A090WR314902021204020112030318250105BB1201110I02",
  "1I5101131502141B15120511011K155132040202510201010603060A1F02040104210B1WH290E0E0h01jT2J1WK040W",
  "e20C0oC010Yup80bG0a51C1E029XDP11N0K028L1aJW22YI21122XK221dE1X0B51N7127C0232041D120819052C28220",
  "104060306XNWHX757224930113029cAB40e4WF191aTYJC395WO7E2A68"]

def emojiComponent : CharSet := Packed.set [
  "W406059djP0bR0WwxD0XXyJPlB4WkU3vjWPY2"]

/-- Emoji that take a skin tone. -/
def emojiModifierBase : CharSet := Packed.set [
  "fZN0c20G3YypH0WT22022YO12ALI3042127010O0bF140L041aJ234XL0G290B0nH02087609922WP0WU11110H21CcC2W",
  "B8"]

/-- Characters that are shown as emoji. -/
def emojiPresentation : CharSet := Packed.set [
  "efR1bJ33020lP1L1WJBWC0J0D081H1518050L0711040207041S0W40104210WU2O0E0wM1WK040Ywn80bG0b4029XDP10",
  "O0K02412L1aJW1C81X71LCWB44CG303X8101b02X0D31NI0Q1D0XOXMWHX760322243B178cAB40e4WF191aTYJC395WO7",
  "E2A68"]

def extendedPictographic : CharSet := Packed.set [
  "aE040dhH0C0bU0M0XS5F1gQ1C0Y20X80PA42bD0cE1A090WR3151B1YKAYO2A1010603060A1F02040104210B4WE290E0",
  "E0h01jT2J1WK040We20C0oC010Yup4d7D2W00WT5C1E029IWPREA0K028139iU5f78dHWHZ3YNBXNWBC3WP7A5W97UXJCW",
  "F191j6d8WWT"]

/-- Characters that lengthen the one before them. -/
def extender : CharSet := Packed.set [
  "aS0m91xA0j70pA0ZD0XR0t80Z30XjF0WP0oM0hQ0X60abA0WC4YA1Y02ynB0Wn70WV10M0ZD0YF0L1rkK0XZI1WlQ0R040",
  "WdE0eE0YN1l22WdM0qk31Wc2110zb01WcN0wF2"]

/-- Characters that join the ones beside them. -/
def graphemeLink : CharSet := Packed.set [
  "XjP0Z30Z30Z30Z30Z30Z30Z30YG1G0Z00YI0Z30bF0aP1WuH1U0a20q20cA0Y81X81ZpR0WWoP0W60ZR0ZI0YF0eU0cT0u",
  "YR0WnN0WA0E0WQ0YS1ZF0YN0aP0Y50Z42YK0Z30d40Z30YP0YN0dL0dB1a60XL0I0XJ0iI0dC1XJ0iM1mmC0"]

def hyphen : CharSet := Packed.set [
  "WE0Z30We40ZxJ0XZB1YrO0sQ0Wsr70aE0XP0"]

/-- Mathematical characters inside names. -/
def compatMathContinue : CharSet := Packed.set [
  "aN150diR03A1EgU040M0YseN0P0W00P0W00P0W00P0W00P0"]

/-- Mathematical characters at the start of names. -/
def compatMathStart : CharSet := Packed.set [
  "eWQ040M0YseN0P0W00P0W00P0W00P0W00P0"]

def ideographic : CharSet := Packed.set [
  "htI1P8E2WV4bvJX2qv4sqUgO2YCWVaG0RbgS8WdSWA9eqJhNpl0Wij1W1ZeU6c42azQEct1Fp1XmHmEWmIaZ95Zg6"]

/-- Vowels that are written before what they follow. -/
def logicalOrderException : CharSet := Packed.set [
  "YtL4YU4XxA220Wco712011"]

/-- Marks that stand nearest to their letters. -/
def modifierCombiningMark : CharSet := Packed.set [
  "Wq8120Z706031kG11230W00"]

/-- Code points that are no characters for good. -/
def noncharacter : CharSet := Packed.set [
  "Xao0W0lU1Xbb01Xbb01Xbb01Xbb01Xbb01Xbb01Xbb01Xbb01Xbb01Xbb01Xbb01Xbb01Xbb01Xbb01Xbb01Xbb01"]

def patternSyntax : CharSet := Packed.set [
  "W2EA6Q310Q3W3610111011404030N0W00ddON8E2I19eQs6a5p9UWaFlGZ3hD24OF0WsoA1dD1"]

def patternSpace : CharSet := Packed.set [
  "94I0Y70dhC1O1"]

/-- Marks before the digits that they span. -/
def prependedMark : CharSet := Packed.set [
  "WnH5bT0WI0hC1XI0XddS0F0"]

def quotationMark : CharSet := Packed.set [
  "W3040Z70F0dfU7P1YrQ0jN3D2Wsx73b3040XS1"]

def radical : CharSet := Packed.set [
  "hh0P1XQCbR"]

/-- Marks at the end of a sentence. -/
def sentenceTerminal : CharSet := Packed.set [
  "W20C0G0WhK0ZN2aP0WC2cT0WU01031eE1WuS1uF041tT0bC1a21WE050f41gD3a71A121T2b11X31z20N192YgN2eR0D0M",
  "1iQ0WVa20dM1cA030hA1XO1Y20ZS1ZN2ZK1d10qwC021WS031aE0C0G0X30XxE1Wf64WD3b31YO3Z32Z5160G1XQ111YF0",
  "eJ1YO1h115EYC1d12lL010d31XP1iH1rA1XC1pVL1Z90X31B0mQ1eH0ptA0cyU0"]

/-- Letters that lose their dot below another mark. -/
def softDotted : CharSet := Packed.set [
  "YC1bA0e20U0WL0K0fA0Y5010bpN0WK0D030Z80a20iI0bS1XzE0YovF1WJ1WJ1WJ1WJ1WJ1WJ1WJ1WJ1WJ1WJ1WJ1WJ1Xd",
  "C0eQ1Q0"]

/-- Marks at the end of a unit of text. -/
def terminalPunctuation : CharSet := Packed.set [
  "W20A010B130vO080lH0WQ0XA0E012aP0WCA10cI1WN517W00dD1WeS1aH045f11uE7tT0Z02X91a2230W8321f41gD3a71",
  "A112T2b14X01z20N192YgN2eR0D040A01131iP1WVa11dL2cA4hA1XO1Y20ZR2ZN2Z30G1d10qwC021WQ213aE0A010B13",
  "0X3020WYS0WH0WbB0bD0f01ZS5X65XR3zM4WD3b36YJ3Z32Z5160G1XQ4YF0eJ1YO2C1gH33EYC1d12lL010d31XP141iB",
  "2WE0pP1XC1WgL4noQ1Z90X32A0mQ1eG1ptA0cyT3"]

def unifiedIdeograph : CharSet := Packed.set [
  "ivDbvJX2qv4szL11011A0101122Xcs8Wij1W1ZeU6c42azQEct1Fp1ZqJaZ95Zg6"]

/-- The letters that version 17 adds. -/
def addedAlphabetic : CharSet := Packed.set [
  "XdL0WVB0Z30WfdG12010S0uxHPWiN2WJ1YeA7nQWCqkUO2Oe74bh77WfILY4YLspAU1L81WtjH5bc3Brp0ZjJ"]

def addedNumbers : CharSet := Packed.set [
  "XjZO9qvF2"]

end TagLint.Unicode

import TagLint.Unicode.Packed

/-!
Quoted text for messages.

A quoted text stands between double quotes. The quote, the backslash and the controls that have a
letter are escaped with a backslash; every other character without a glyph of its own is written
as its code point. These are controls, format characters, separators other than the space, marks
that extend the character before them, and code points without a character, as version 17 of the
standard has them.
-/
namespace TagLint.Unicode

/-- The characters without a glyph of their own. -/
def hidden : CharSet := Packed.set [
  "0W0Y2W2C0o5YI81637010K0c76aB0W71WJ13WE10111118R36GAA10WFKG0Y87152113W1110USXRA1DWC872O3181216F",
  "0P410B4W1FWBWPWO010474036A1T0208121M0701242102521201C2033O4106321M0702020233N4016A1301B109030M",
  "07020524710221E23C617208121M07020521115212E2033IA106230422010222232C4102230321KL5308030N0G2124",
  "I302123A6A0B030N0A05221102M3023A03DB030WA1102430302330A3Q120I2O09011782576A13BWH02A87DW5201050",
  "O010A028115018A14W0O1R01010E0W5H14115WH8060DW5WE3151121P142G3D02160F0W901411ZJ1cF041701041WA04",
  "1W2041701041F0WQ041X54T2Q5XO161pK0S2XR6ICJ228IDD03EWL116802A92A5A5B4A5XR651W3014X89W0341332066",
  "12WB15AWD3Q5B2WQ122WP01810276CA5A5EXNWH94280T8C1W1325WP011301CWH724F2X04WC1BA1C1640603114b6X1d",
  "U161W716180101010W01WM0F0E160J1309GO7WGG21R0D2W3WUZG3qFLBKWwE1h5224WE01411WP62EN87070707070707",
  "07W1Y1W2Q0XRBbSPG0WA5G0XO3Y84WC0WK0WB0XO8WH0zjT2WO8g7JWG319W11XI167c4JH03040P153A5WP7X69CND0W7",
  "7PA1BU5WH0232120D0B370P0WA5212A308011A1W10WK0122151101NH18A6161687070WT3YO02042A5goCBN3WI3XZ2b",
  "pDgP1YDW67B5410O050102020pUW0GFALW40J04350ZB3a22U261616132707C21C0Q0J020F1EW2YU433WE2XQ0D21WFW",
  "EZ6T2WIFR3W58U4W79U0W63EWAa31A5W53W53W97WLAC0F07020B0F07022WLBf18M98N60WB09X66110WD02211N0XA79",
  "WGJ024W22R4RW6WP3K1WGE4030T99696X2W0W65C8WN2T1R4Q64B7XHXBWNWKCWK6WBBA5W77O72bLW00WB2112F679W7W",
  "97MA9LI34W6SJN810WNE73U0211BWI321204DP6A8W5418I7W403AWL8108320G0KAI0S223602X0701040F0B5WG03CA7",
  "208121M070205210104121221B7RA01110W70102E102210302W7WP72210L0103TWH0251020111147AaAWG0254111RW",
  "4WK720114AA5DIWC0102725A5KRR2102318NaTWG8111Y6XLB81118020O050254038AX781WB7404Q19W9523881522WF",
  "C119CXB6AXO12101XPW3DA590W7D1069T2W1O16111XC7020W7K18A56020W63201016A5WD3AcSJ148F0W5722NXN1EWJ",
  "CyOY8YI05AbAXs0Y6CWYIG6OZZR4nPcYKUB32AWtSnB6W00A3XJ0A5U619WH6F9A070L4JiSWRbBXT4P1PWCXD4WPADX14",
  "D58cq4W9W1Y3YMeWK407020eCE1S311D47hOXhDYE4D296A1111ZXTd52j25NEHY1YNWScT9W81WT43L26U3WUKX421YSK",
  "BKBXP8PZAXN0X9021112140C01070X30418070S040501270fU1eD1n4WN4WI80E07WaNW056dCX0ZLWE971A32f9UHWD3",
  "A41jTS3AbRU1B31b5W00302071582c6704020F0bB19WGX6613A32u9X6XDWUb740R0201110A04010151310101030201",
  "1101010101020114070404010A0H43050HWK2dLWD3Y7BF1F0F0W69aJWOTCWD3962D6ZTWVO2H2D2c15C31EC3WP7A5W9",
  "7U1C32D9W7g37E1D2B2WQ013G1C3A6ZN0YAWX5Wij2W0ZmB1bV81ct2Ep2XmGmFWmHaZA4duRzfsG"]

end TagLint.Unicode

namespace TagLint

/-- Whether a character is written as its code point inside quotes. -/
def isHiddenChar (c : Char) : Bool :=
  if c.toNat < 128 then c.toNat < 32 || c.toNat == 127
  else Unicode.hidden.contains c

/-- A character inside quotes. -/
def quotedChar (c : Char) : Text :=
  match c with
  | '"' => ['\\', '"']
  | '\\' => ['\\', '\\']
  | '\n' => ['\\', 'n']
  | '\r' => ['\\', 'r']
  | '\t' => ['\\', 't']
  | '\x00' => ['\\', '0']
  | c =>
    if isHiddenChar c then ['\\', 'u', '\x7b'] ++ Nat.toDigits 16 c.toNat ++ ['\x7d']
    else [c]

namespace Text

/-- The text between double quotes, with escapes. -/
def quoted (t : Text) : Text :=
  '"' :: t.flatMap quotedChar ++ ['"']

end Text
end TagLint

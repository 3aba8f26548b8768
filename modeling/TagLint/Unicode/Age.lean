import TagLint.Unicode.Packed

/-!
The versions of the standard in which code points were assigned.
-/
namespace TagLint.Unicode

/-- The property that gives every code point the version of its assignment; the versions stand in
their order, and after them the lack of one. -/
def age : Enumerated := {
  values := [
    ["1.1", "v11"], ["2.0", "v20"], ["2.1", "v21"], ["3.0", "v30"], ["3.1", "v31"], ["3.2", "v32"],
    ["4.0", "v40"], ["4.1", "v41"], ["5.0", "v50"], ["5.1", "v51"], ["5.2", "v52"], ["6.0", "v60"],
    ["6.1", "v61"], ["6.2", "v62"], ["6.3", "v63"], ["7.0", "v70"], ["8.0", "v80"], ["9.0", "v90"],
    ["10.0", "v100"], ["11.0", "v110"], ["12.0", "v120"], ["12.1", "v121"], ["13.0", "v130"],
    ["14.0", "v140"], ["15.0", "v150"], ["15.1", "v151"], ["16.0", "v160"], []]
  runs := Packed.pairs [
    "0l5330T3750603H627A8D0XQ34610WF3009346G0X7385067746201305C930191R1008200F0R306R000R00JR00WC9",
    "006305100300030003000300H41506473300B300X3300B300W9903151330WL5101510151800R31077101855F839F",
    "A1B1F7R00W6R106J00W7J00030R1F1C0R01G701C0980081072R70QR3J004RA63C0F0947000689400E0N07000B00P",
    "940I326275B00D510X93104300E300T610934603DR03T623QR1627T9H3WH50RD8WRR1J2AWER1AER0BRR1B0R0IAR4",
    "NUR0N1R4Q0N7C0F0CAF5G1N0H7M9NAJ0HEG0CQF0A002600WLB10HA0B004A0B10O91B4F0A1817081F002R007R101R",
    "10LR006R000R203R1006006R101R10270R700R301R004R10KA0I1J0R1600060R005R301R10LR006R001R001R001R",
    "100R004R301R102R290R603R000R60E90J0R902R0066000R002R00LR006R001R004R109R002R002R100RE0062R10",
    "9C060R6G0I5R002R007R101R10LR006R001R06003R10790R101R102R6M001R301R00291R10A60B5R901R005R202R",
    "003R201R000R001R201R202R2077002R304R202R003R190R500RD700B67R4F002J007R002R00MR009F004R1N0900",
    "6R002R003R601R091G0R1N0R10191R109R6K097H0F001J007R002R00MR009R004R16106R002R003R601R5N000R00",
    "181R109R081O0RBI0F001M007R002R00MB00FB0I1900590R002R003B0H0R3H200H6G00191R10995H296R0M031R03",
    "HR23NR038R030R136R230R335R030R037R5F9R132RB0WQR30SRW501R000R0K001K000R0K000K503K006K002R000R",
    "000K101K00CK002R104R000R005O0R009R101C1RW01X9R01W13091R31QB3153010R01K3216301032R03ER0903071",
    "92A3B1RW53W29034903190369233953P9X1A3910W6R0C0R4C0R10W751710070C20XRA40X5A40XJA536703X07030R",
    "033R136R030R033R13W77030R033R13U7030R033R136R030R033R1367036R03M703U7030R033R136703W7703IR1B",
    "1713RR27PR53XMG0R1G5R1A03p9A83SR23XIF7R65CN056N0R8N05MR85JRB5CR052R051RB3XU60R139R569R53EN03",
    "9R53XPJ0R63WA90R4AX7R96SF1R06BR36BR360R26WAR164RA7WAA1R37PR579A0R2716W07RR171AX0R0ASR1AAR5A9",
    "R5ADR1FEM1NDRWH8XDN0R0Q18WDN1Q09WBC29BC5BWKR7B39WOR29ER29WJH8Q1R4JWBR1J2C7R7AW3C3I0F1K0R46YE",
    "7XP869RFEI3N0H0B0A0810ZU10930XR950LR105R10W6R105R107R000R000R000R00UR10WLR00ER00DR105R00IR10",
    "2R008R00WF300M503554617150765490R0E30650R10QR074B7R20A1020325173A2B0D0F2G0I0N0RE0H3156708390",
    "RE0WP3160705E708190A20WG308093A0G1R30XS385B0cO5D00300YR30503T5WK617A8BA0BAF6H3I00W531Q2RL0AR",
    "K0ZE5J600ZP590XH37570J615170300XN315B7159677A90A1617F8099A293A9B0AIB0A0B3ANF003B003B10RB00W3",
    "B000B003B200A006B1065D0UB20NB00DB07683C090C0B15R935F3d75lF6D758694839W9F294A4FPR1FW0R0M0FW2J",
    "2FBK0F7I0JOG3JEK07WFN07WFN08C92A0928395A17YDA6C1R47WDR0C0R4C0R17WMC1R670B0RDB07MR876R076R076",
    "R076R076R076R076R076R09W07N93719IA0C9F6H1I4J4K0M2NARW23PR03XQRB3bRRP3BP30WO32523000R00XL51R1",
    "05510Y050R40W890I0J0R00Y0R00F3NB2M47F9JQ1R8P05F0S61R00W4AB605E0R61700WI5E0B630WFL00YP630Y561",
    "0U603bv9M96X10qs77L97A7C0G8IKJ4MCN23WbHR23H513F503B50325030R8AWG9eKRJ9W0B19HC79RF5G0C0AXPR77",
    "M8394819YDB1G0B1C1FBB9C0F2H0J0F1G5J1K5N1K4M3Q2R1N1R0N0R0N4Q2RKN2M1F0C1B0947WCM0R2A9R58WOR79X",
    "6H0R79BR5ARG1J19XLRA90ASR2AXFR0AAR3A1FUR09WNR89DR199R193ARF3AX4RNA4CMR9B5R1B5R1B5R8B6R0B6R0F",
    "WGG3F1K1M3R3GXHAWER1A9R51goBRBAMR3AWHR31XZ10bz5C15WRA2R17YCRW606RB04R4300OR004R000R001R001R0",
    "0YEBFN0RF0gNNF0X1R10WMR6N04W00B5060N15F79R50392F6G10K516109R00IR003R3025000R00ZAR100R00Y0510",
    "Y0R205R105R105R102R206R006R93220026BR06PR06IR061R06ER16DRW26YTR462R36WDR2687XCF1H1R09BM0R2F0",
    "RWF9WERZ59SR29WHREFRR34UF043R8I24QR4FWBR46TR0607W4R37DRWA4W6614W66XHR169R5HW4R3HW4R3FW8R7FWK",
    "RAF0NAR0NER0N6R0N1R0NAR0NER0N6R0N1R2QWKRBFf0R8FLR9F7RNN5R0NWAR0N8RX665R160R06WCR061R260R160A",
    "LR0A8FX0R7F8RWGGIR0G1R4G48PA1R2809PR490RX1CWOR3G1C1GFR1GWE73R071R477R072R07QJ1R172R378J0R678",
    "R6AW0FW0RW0FW7R3FBR8AWMR2ASR1AQR4A7FHR6F3RBF6RXHAXARWNGWJRCGWJR6G5JW8R7J9R5QW6R2QSR7Q1RbLAUR",
    "0MWAR0M2R1M1RFQ2RWNQ0O2JW8R7JWARLNPRW6MRRJKMR8BXFR3BTN5R8F0AX3N0R9J0R1COR6C9R5CWLR0CDJ2M0R7F",
    "W7R8CXAG3F0M1C9F0G4R0FJRAFHR0FWBH0O2RWUG6R0G0R0G3R0GER0GAR5FWRR4F9R5G0F2R0F7R1F1R1FLR0F6R0F1",
    "R0F4R0J0F8R1F1R1F2R1G0R5F0R4F6R1F6R2F4RAQ9R0Q0R1Q0R0QW6R0Q9R0Q0R1Q0R0Q3R0Q9R0Q1R7Q1RSHXRM0H0",
    "R0H0J0K0M1RTFX9R7F9RaAFWMR1FHGJRW2FX6RAF9R5HCRICWOK0N0R5C9R5QJRRGPJ0R1GER3GFN6RaTJWSRY6FXKRB",
    "F0M6R1M0R1M7R0M1R0MTR0M1R1MBR8M9RX7K7R1KWER1KARQIX9R7IWKK1IMJ0I4RCNFFWPR6O9RaQQW2RDQ9R5H8R0H",
    "WDR0HDR9HSR2HW0R1HLR0HDRXAI6R0I1R0IWCR2I0R0I1R0I8R7I9R5J5R0J1R0JW5R0J1R0J5R6J9ReUJOR6OGR0OW9",
    "R2ORQ0RXMM0REKWIRCK08xAFWAG0RY88Y5FBR083F0RAGb9RXs0NY5RCAWYGO0K8OSR9QZZQR4GnORcYKQWQRWtSBnAR",
    "6FUR0F9R3F1NXGR0N9R5FTR1F5R9FX7R9F9R0F6R0FKR4FIRiSQWQRbBJXSRY7CX6K5R3K0CWFK8R6CGRX1H0I0K1M0R",
    "AM1RDHbgHJ4K5R7HtAMkHRW9Q0M8Ree6N3R0N6R0N1R0B1Ie5N3REO0RSK2R1O0RDK3R7IhNRXhDFYDR4FCR2F8R6F9R",
    "1F7RZXPQd1R5Qj1RXDNWER1NMR8NYMRWS4cSR94W7R1904aOGAN1RK7X7RYSOJRBJJRB6XOR88HJ6RZA4XMR04X8R041",
    "R140R141R143R04BR040R0436041R04X2R043R147R046R04RR043R044R040R246R04fR71R14eA81R14WIGq0REG4R",
    "0GERWZINUR5O5RbQH6R0HGR1H6R0H1R0H4R4OWURW1O0RYIKWDR2KDR1K9R3K1Rf9NURGKWQR4K0RjTOWARbRQWBR3Q0",
    "RkEN6R0N3R0N1R0NER0FbAR1FFRW9HXCK0R3H9R3H1Ru9JX5RXDKWTRb7C3R0CQR0C1R0C0R1C0R0C9R0C3R0C0R0C0R",
    "5C0R3C0R0C0R0C0R0C2R0C1R0C0R1C0R0C0R0C0R0C0R0C0R0C1R0C0R1C3R0C6R0C3R0C3R0C0R0C9R0CGR4C2R0C4R",
    "0CGRWKC1RdL9WCR39Y6RBBER1BDF0R0BER0BEFLR9AAF1M2AUJ0B0A0BAA0B0A0B1A0B2A0B2A4B7A0B6A0B9C1K0M2B",
    "8A0B0A1B1A0B9A3B1A0B9HHM0RWOBPA0B1RCAW2B8H0R3A8R6B1RDI5RZTBW1FBG2B5F0BX7F0G1BJFBBW5F0B4F3G4F",
    "BBGF6G7BX0F0B0F0BaQF0B3F1G0BWUF1C3F6G4BNFHH0FW9H0FXNB4C0BFC0B2C0B0C0B0C0B0C0B2C0B5C1B3C0B0C1",
    "B3C0BBF1G1BAFWGBX7F9G0H1I1K0M1R3O0N2FCR2F3H2I1J0K0M1R2BYMO2R3O4FXMJ3O0R5KBR3N0REFBR3FWOR7F9R",
    "5FW8R7FTR1M1Q9R3Q1RWUIBM0K2G8H5I0H7I7H0I1HBK0HBI0J2HEICJ4K0M0J3M1N0J0K0J3G4HCI5JAM1K5M2K1J9K",
    "5G0J1K7M0N0K2IMJOKXLRBJDR1K3M0O2K2N1R2K2M3O1Q0R4Q0K5MIN3O2M6N3O2Q0O0M2N2Q0R6O1M6N2O1Q0R1Q0N7",
    "O0Q0R5N6O1R6MZMR0MWNQW5M9RWX4114WiiNM6N1RW0AZePN3O0R5Bc4R1GazQRDIct1REPp1RXmG4mERWmF11MaZ9R4",
    "OZg6RWwq811RXbaU11RXbaU11RXbaU11RXbaU11RXbaU11RXbaU11RXbaU11RXbaU11RXbaU11RXbaU11R040RT4Y2RZ",
    "36cMRXapU1Zhh5"] }

/-- The code points that are assigned in a version or in an earlier one. -/
def assignedIn? (name : String) : Option CharSet :=
  (age.indexOf? name).map fun index => age.select (· ≤ index)

end TagLint.Unicode

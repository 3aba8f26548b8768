import TagLint.Unicode.Packed

/-!
The scripts of all code points, and the scripts that a code point is used with where these are
others than its own.
-/
namespace TagLint.Unicode

/-- The property that gives every code point its script. -/
def script : Enumerated := {
  values := [
    [], ["common", "zyyy"], ["arabic", "arab"], ["latin", "latn"], ["greek", "grek"],
    ["ethiopic", "ethi"], ["inherited", "zinh", "qaai"], ["han", "hani"], ["tamil", "taml"],
    ["gurmukhi", "guru"], ["grantha", "gran"], ["bengali", "beng"], ["gujarati", "gujr"],
    ["oriya", "orya"], ["hangul", "hang"], ["katakana", "kana"], ["telugu", "telu"],
    ["kannada", "knda"], ["sinhala", "sinh"], ["lao", "laoo"], ["tulutigalari", "tutg"],
    ["cyrillic", "cyrl"], ["georgian", "geor"], ["hebrew", "hebr"], ["vithkuqi", "vith"],
    ["kharoshthi", "khar"], ["divesakuru", "diak"], ["malayalam", "mlym"], ["tibetan", "tibt"],
    ["linearb", "linb"], ["masaramgondi", "gonm"], ["mongolian", "mong"], ["glagolitic", "glag"],
    ["hiragana", "hira"], ["cypriot", "cprt"], ["gunjalagondi", "gong"], ["devanagari", "deva"],
    ["limbu", "limb"], ["taitham", "lana"], ["multani", "mult"], ["pahawhhmong", "hmng"],
    ["duployan", "dupl"], ["armenian", "armn"], ["syriac", "syrc"], ["myanmar", "mymr"],
    ["khmer", "khmr"], ["newtailue", "talu"], ["cham"], ["bhaiksuki", "bhks"],
    ["cuneiform", "xsux"], ["tangut", "tang"], ["nyiakengpuachuehmong", "hmnp"],
    ["bopomofo", "bopo"], ["coptic", "copt", "qaac"], ["cherokee", "cher"],
    ["canadianaboriginal", "cans"], ["tagbanwa", "tagb"], ["lepcha", "lepc"], ["tifinagh", "tfng"],
    ["javanese", "java"], ["meeteimayek", "mtei"], ["lineara", "lina"], ["hatran", "hatr"],
    ["meroiticcursive", "merc"], ["psalterpahlavi", "phlp"], ["oldhungarian", "hung"],
    ["garay", "gara"], ["yezidi", "yezi"], ["brahmi", "brah"], ["ahom"], ["nandinagari", "nand"],
    ["marchen", "marc"], ["kawi"], ["mro", "mroo"], ["miao", "plrd"],
    ["khitansmallscript", "kits"], ["signwriting", "sgnw"], ["adlam", "adlm"], ["nko", "nkoo"],
    ["samaritan", "samr"], ["mandaic", "mand"], ["thai"], ["runic", "runr"], ["tagalog", "tglg"],
    ["taile", "tale"], ["buginese", "bugi"], ["balinese", "bali"], ["sundanese", "sund"],
    ["batak", "batk"], ["yi", "yiii"], ["lisu"], ["bamum", "bamu"], ["saurashtra", "saur"],
    ["kayahli", "kali"], ["rejang", "rjng"], ["taiviet", "tavt"], ["olditalic", "ital"],
    ["ugaritic", "ugar"], ["oldpersian", "xpeo"], ["osmanya", "osma"], ["osage", "osge"],
    ["caucasianalbanian", "aghb"], ["imperialaramaic", "armi"], ["nabataean", "nbat"],
    ["phoenician", "phnx"], ["lydian", "lydi"], ["manichaean", "mani"], ["avestan", "avst"],
    ["inscriptionalparthian", "prti"], ["inscriptionalpahlavi", "phli"],
    ["hanifirohingya", "rohg"], ["kaithi", "kthi"], ["sorasompeng", "sora"], ["chakma", "cakm"],
    ["khojki", "khoj"], ["khudawadi", "sind"], ["newa"], ["tirhuta", "tirh"], ["siddham", "sidd"],
    ["modi"], ["takri", "takr"], ["warangciti", "wara"], ["sunuwar", "sunu"],
    ["egyptianhieroglyphs", "egyp"], ["tangsa", "tnsa"], ["bassavah", "bass"], ["nushu", "nshu"],
    ["wancho", "wcho"], ["olonal", "onao"], ["mendekikakui", "mend"], ["thaana", "thaa"],
    ["ogham", "ogam"], ["hanunoo", "hano"], ["buhid", "buhd"], ["olchiki", "olck"],
    ["braille", "brai"], ["vai", "vaii"], ["sylotinagri", "sylo"], ["phagspa", "phag"],
    ["lycian", "lyci"], ["carian", "cari"], ["gothic", "goth"], ["oldpermic", "perm"],
    ["deseret", "dsrt"], ["shavian", "shaw"], ["elbasan", "elba"], ["todhri", "todr"],
    ["palmyrene", "palm"], ["meroitichieroglyphs", "mero"], ["oldsoutharabian", "sarb"],
    ["oldnortharabian", "narb"], ["oldturkic", "orkh"], ["oldsogdian", "sogo"],
    ["sogdian", "sogd"], ["olduyghur", "ougr"], ["chorasmian", "chrs"], ["elymaic", "elym"],
    ["mahajani", "mahj"], ["sharada", "shrd"], ["dogra", "dogr"], ["zanabazarsquare", "zanb"],
    ["soyombo", "soyo"], ["paucinhau", "pauc"], ["makasar", "maka"], ["cyprominoan", "cpmn"],
    ["anatolianhieroglyphs", "hluw"], ["gurungkhema", "gukh"], ["kiratrai", "krai"],
    ["medefaidrin", "medf"], ["toto"], ["nagmundari", "nagm"]]
  runs := Packed.pairs [
    "1X23P153P1WF301E30143M103U103jE1W73414WL11J6YI431042014310400340104010420040004J004X0WMD4FLZ",
    "861LaD00WBW601WBWI01WB200NWN07NQ03N50A241025102D1022102W010296A2P602YE102W2WCD00WCWS01WC22WG",
    "Z6WI0DXGWR01XG2XHWE01XHE00XIR01XI000WCA042U0021042XC102SW5XI63W5E11W5PB300B701B101BL00B600B0",
    "02B301B801B101B307B003B100B401BO019200950391019L00960091009100910190009403910192029006930090",
    "069G09C200C800C200CL00C600C100C401C900C200C201C00EC301CB06C600D200D701D101DL00D600D100D401D8",
    "01D101D206D203D100D401DH098100850282008302810080008102810282028B038402820083018005800D8K04GC",
    "00G200GM00GF01G800G200G306G100G201G001G301G906G8HC00H200HM00H900H401H800H200H306H105H100H301",
    "H900H20BRC00R200RWJ00R200R503RF01RP00I200IH02IN00I800I001I602I003I500I000I705I901I20BXJWQ031",
    "0XJR0W5J100J000J400JN00J000JM01J400J000J600J901J30W0SX900SW403SW700SW400SE00S613S10W5WDa4MW6",
    "00M004M001MWB10M3Ed75XA0053015600500053015W90053015W10053015600500053015E005WP0053015X4015W0",
    "025P05WNXN01WN501WOpJZ7S02XKXC12XKA06XLL08XL0Z8K1108Z9J0BWPC00WP200WP10BWEY001WE905WE905W011",
    "1W0010W0J05W0XQ06W0WB04WOX709W6U00W6B03W6B03W6002W6BXMT01XM40AWFWC03WFP05WFA02WF1WEW0XNR01XN",
    "1W7X000W7S01W7A05W7905W7D016U0WHXOXE00XOWIXPX1XQWK07XQ3WQWO02WQE02WQ2ZAWGLA04MWB01M2XP707621",
    "06C106613601560126110043W644L03WH4433443CL03X7406X13d74L0145014W601450147004000400040004U014",
    "WL004E004D0145004I01420048001B611XO001A30011A301E003C021W10E6W10E1W640123115301Q301G3W912031",
    "qE0L1A0K1ySZBd71p7011W0001YBW1Y23W0WMYM04WM6MW600M004M001WRWO06WR10DWR05M0856005600560056005",
    "600560056005600LW01Y00W27P007XQ0B7bR0P1K7010701O7863E117731300W2XN016111W2210FXR11F204WLWB00",
    "EY0001FWLW01W60810FFEU001X1EU1XIFWF10FXP1aC7bvJ1X17qv4XRWbH02XRWN08XSWGZCeK0JLY2XTXP071W23Y8",
    "123X40131003000370K3DZDWD021905ZEWO07XUX707XUB05W5W0Y0WE10Y00Y1W40AY10ES02WSXF0010WS903WS1WD",
    "U00WGWN08WGD01WG901WG3WDW0Y2X40NY24WTM09550155015508560056003WB103840331103WNXHWTWE01WT905Eg",
    "oB0BEM03EWH0dtJ7gO017YC0W6360BWB404NP00N400N000N100N100N92YL0F2gL112XH012WM06200W02F6F19056D",
    "L11W3001I00130324002ZA0110001W03P153P1AF910FWD11EU02E501E501E501E202160016091401TB00TP00TI00",
    "T100TE01TD0W2TYT0412031WD02184XG001C02400WF1WD600Z5ZFS02ZGWH0E601Q03Y3W408Y32ZHQ04ZIWB04Y4T0",
    "0Y40Y5W403Y5D0WAZJXHZKWGY6T01Y6905Y7W403Y7W403ZLW807Y8WK0AY80OA00OE00O600O100OA00OE00O600O10",
    "2ZMWK0BWUf008WUL09WU70N35003WA00380X6W3501W3000W3WC00W3102W3001W30Y9L00Y98ZNW0YAU07YA80WGX0I",
    "00X0104X04YBR02YB0YCP04YC00X1ZOW0X1N03X1J01X1WEP300P104P700P200PS01P203P906P806ZPW0ZQW00W0YD",
    "W703YDB08YEWM02YE6YFL01YF7YGI04YG7X2H06X230BX260XHZRXA0WNX3WJ0CX3WJ06X35YHW807YH905X4W602X4S",
    "07X410bL2U00X5WA00X5201X510F220WN23ZSW807ZTWA0LZUP0W6a0R0Ja1M08X6XF03X6W408X60YIX409YI001YJO",
    "06YJ905YKWL00YKH07a2W708a3Y200IJ0AYLH00YLWF0WUW8600W8000W8300W8E00W8A05YMWR04YM905A300A701A1",
    "01AL00A600A100A40060A801A101A201A005A004A601A602A40AK900K001K000KW600K900K001K000K300K900K10",
    "7K10SYNXT00YN40TYOX907YO90aAYPWM01YPW60W2YQX60AYQ905W0C0IYRWQ05YR905WDJ0RX7Q01X7E03X7M0aTa4W",
    "S0Y6YSXK0BYS0Q601Q001Q700Q100QT00Q101QB08Q90X7X8701X8WE01X8A0Qa5X907a6XK0CWOFa7WP06W590aQYTW",
    "20DYT905WH800WHWD00WHD09WHS02X9W001X9L00X9D0XAU600U100UWC02U000U100U807U905W4500W4100W4W500W",
    "4100W4506W490eUa8O06XAG00XAW902XAS0XMXS00E8WI0C80WIyM0Y8WIYH00WI40AWIb90Xs0a9Y50CYUWZO09YUZZ",
    "Q04aAnO0cYKaBWQ0WtSXTnA06XBU00XB903XB1Z0XG00Z0905Z1T01Z1509W9X709W9900W9600W9K04W9I0iSaCWQ0b",
    "BaDXS0Y7XCXC03XCWP06XCG0X1WJ0Z2071XD00A710DWJbgS07WJtNXDk40W9XD0WJ80ee6F300F600F100F0W2e7F20",
    "EW200SW2201F00DF307Z2hN0XhDWAYD04WAC02WA806WA901WA3130ZXP1d1051j10XD6WE016M081YM0WS1cS091W70",
    "11WU621G6711661T631WT0K4X70YS1J0B1J0B1XO081O0ZA1XM001X80011011001110113001B00100016001X20013",
    "01170016001R0013001400100216001fT011eC011WIXEq00EXE400XEE0WZI3U05350bQW1600W1G01W1600W1100W1",
    "404LWU0W1L00YIWKWD02WKD01WK903WK10f9aEU0GZ3WQ04Z300jTaFWA0bRZ4WB03Z400kE5600530051005E00Z5bA",
    "01Z5F0W9XFXD03XF903XF10u91X50XD1WT0b723002Q0021002001200029002300200020052003200020002000220",
    "02100200120002000200020002000210020012300260023002300200029002G04220024002G0WK210dL1WC031Y60",
    "B1E011E001E001W5091aI0WO1PW20110C1WC031806110D150ZT1WVM031G021C021YP031Y1051B03100E1B031WO07",
    "19051W8071T011B03110WU1fT0B1D011C0219041WO061E011A0518061ZM001Y80WX67Wij10W07ZeU057c4017azQ0",
    "D7ct10E7p10XmG7mE0WmH7aZ9047Zg60swp0100T1Y20Z36cM0bnX5"] }

def scriptLists : List (List Nat) := Packed.lists [
  "173W3WUT22WM2A86WL7EW2FXR27WJ1W52W2F1322WC32Z6X54W5a4YIa23BYKZD29W82CYL3HX8K3YKWDXM5WL7EW2F2W3",
  "T2732WL31WA142LW12W5a32WL71XK2W0ZE2BW52W5AGW5a4C9YIHYLYMa2RYQX8a3YRYOKFW5a4C9YIHYLYMa2YQX8a3YR",
  "YOKBW5a4C9YIYLYMa2YQYRYO23YT23WC2WM42L372X4YHXGWCZ6X54Z9Z8XLWP4BW5AH8WL7EW2FW0SXR9WL7EW2FXSW0S",
  "XR37W2F22XG22Z63W3a9TGYEZGWMWAZLMW1ZH4W473YCa2ZIZK7BLW53XSXJaE23XS23XJ8WNWML43ZIYTXM8WNL43Y7YT",
  "XMZM4WNL3WR5W13YTWCXJBY8WNWMLZH43Y7WCWRZM6WMZLW1ZHF35L43ZIWR9WMWAN3ZIWCXMWRZMBWBLWAZH4N3ZIWCXM",
  "WR23WR3WA3WC4WNL3Y73WN3XM2533L3ZM443ZIZM6WNWAF3WCWR4WNWA3WC33YTWC3WN3WC7Y8WNZH3YTWCXJ23Y73Y83Z",
  "M2LZI3WBMW132WCZ68XF2X4YHXGWCZ6X59XF2YHXIYDZUX2ZTWC22YHFBW5AC9H3RX8YNDa38GYODBW5AC9H3RYND8GYOL",
  "BW5a4ACW49HYMa2RUX8Z4DIZDYR8GYONBW5a4ACW49aBHYMW6a2RUX8Z4DIZDYR8GYO3MW133W5AH5BW5YNGYO3BW5G3W5",
  "YNa34BW5YNG6W5HRD8G3W5YNYO3W5X8YN3BW5a32W5YN4BW5YNa3BBW5AHRX8DIGYOK4W5AHK1B1X83L3WC1WC33W0ZE2X",
  "F26ZGMW1ZFX3ZR4ZG4ZOX33W5A32WM32YEZR7YEZGMYIYCX3XH3XF2X37WL7EW2FW0XR8WL7EW2FW0ZEXRCW5a4C9YIYLY",
  "Ma2YQa3YRYO3BW5K2W583Y03WD2XNWS2YDZU"]

/-- The ranges of code points that are used with others than their own script, each with the number
of the list of these. -/
def scriptExceptions : List ((Nat × Nat) × Nat) := Packed.labelled [
  "aS0WFlK0WGA0K12K10WH90WI10KW70WJ00WK00WL00WM00WN00WO00WP00WQ00WR00WS00WT00WU00X000W200X110W200",
  "X210X3F0X400X500W370X600W310X700X8G0M20MI0X950XA4C841W4dL0XB00N01W500Nd90XCZ60W6E0W600XD20XEW1",
  "0XFAA9A9A609Y60XGpG0XH00XIH0XJ00XK09BYP9CYP9DYP9EcTD3cP9FwB9GaM0XLWn02QX91W7bH1R10RWdH0W800600",
  "W800XM00600XN00XO00XP00XQ00O00XR00601O01600O00S00XS05600XT00XU00Y000600Y103600Y200T00Y301S00Y4",
  "01T00Y5bB1MWN0Y610Y7n60Y8W00Y9A0YA20YBZM0YCYkI0YDO0YE00YFA0L40YG10NiPF510YH00YI00H20011W901WA0",
  "5410H07403HA3P20H04710H41WB010XR37307XS04007ZNF0W1W60905WHW80WPWH0FB0WK00XQO0A40Y3U0zk10NZK7Je",
  "H2U02W001W100YJ00W1aS0YK10YLWR0YMa50YNrbU1WCaN0WDA0WDX91He344A07WE17gB1WE00I4WD138IiDR2XYN0YOX",
  "ZG03103WO13YfQ13103WfsQ3LbWNH0dbS10"]

def usedWithScript? (name : String) : Option CharSet :=
  (script.indexOf? name).map fun index =>
    let exceptions := CharSet.ofRanges (scriptExceptions.map Prod.fst)
    let others := scriptExceptions.filter fun exception =>
      (scriptLists[exception.2]?.getD []).contains index
    ((script.select (· == index)).diff exceptions).union (CharSet.ofRanges (others.map Prod.fst))

end TagLint.Unicode

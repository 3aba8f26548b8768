import TagLint.Unicode.Packed

/-!
The properties by which text is divided into characters, words and sentences.
-/
namespace TagLint.Unicode

/-- The property by which text is divided into characters as readers see them. -/
def graphemeBreak : Enumerated := {
  values := [
    [], ["lv"], ["lvt"], ["extend", "ex"], ["spacingmark", "sm"], ["control", "cn"],
    ["prepend", "pp"], ["v"], ["l"], ["t"], ["lf"], ["cr"], ["zwj"], ["regionalindicator", "ri"]]
  runs := Packed.pairs [
    "59A051B05H0Y15W10C500o43YI0dQ360dE3WD00300031003100300WO65093A00500WE3K0F300Y736600035013100",
    "330W16000300T3Q0XS3A0WQ3808300N330038003200340WB320WK6104380WA3N603W0400WM304030004237433041",
    "003609310S30410WO30003041330141014130083009310P300131400WO300042310331013202300T3102300A3140",
    "0WO300042340031400041300J310L350030410WO30003140330141014130063209310T300WR30403041024200423",
    "008300W83042300WN300032430032003306310A310S30410WO300040314030410032003306310A310E400B31410W",
    "N3100304133004200423060073009310S30410X7300330413200300046300H410WT300040360B370Y4300040380A",
    "360XA310Q300030003003410WH3D40340031043A003W408300Y8334035003141310M413103320F330C3000403105",
    "300E300Y48Y27X99XP0g7320zF330R320S310T310X13140364730413A08300WD3250300YN310W2300YO324331420",
    "3413045320c13141300WP40304036003000300137453901300WG3U0WH33400WF3943320W6380B31400T403341350",
    "WO304031423040340WG473741310ZR32003C4036033005300140310bB3X10lQ5030C0510N560WH5F0Y23W10Yb032",
    "0ZG300Y23W00mQ350YB310WVh03300390W0310XH310dN30023003300M41314003300XK410WI4F310P3H0C300W637",
    "0O3A40300B8S0232400WF304133413141300W4300X435413141310B300730400WE300WJ3000320131043100300W9",
    "4031410440300cI41304130410040300H102Q102Q102Q102Q102Q102Q102Q102Q102Q102Q102Q102Q102Q102Q102",
    "Q102Q102Q102Q102Q102Q102Q102Q102Q102Q102Q102Q102Q102Q102Q102Q102Q102Q102Q102Q102Q102Q102Q102",
    "Q102Q102Q102Q102Q102Q102Q102Q102Q102Q102Q102Q102Q102Q102Q102Q102Q102Q102Q102Q102Q102Q102Q102",
    "Q102Q102Q102Q102Q102Q102Q102Q102Q102Q102Q102Q102Q102Q102Q102Q102Q102Q102Q102Q102Q102Q102Q102",
    "Q102Q102Q102Q102Q102Q102Q102Q102Q102Q102Q102Q102Q102Q102Q102Q102Q102Q102Q102Q102Q102Q102Q102",
    "Q102Q102Q102Q102Q102Q102Q102Q102Q102Q102Q102Q102Q102Q102Q102Q102Q102Q102Q102Q102Q102Q102Q102",
    "Q102Q102Q102Q102Q102Q102Q102Q102Q102Q102Q102Q102Q102Q102Q102Q102Q102Q102Q102Q102Q102Q102Q102",
    "Q102Q102Q102Q102Q102Q102Q102Q102Q102Q102Q102Q102Q102Q102Q102Q102Q102Q102Q102Q102Q102Q102Q102",
    "Q102Q102Q102Q102Q102Q102Q102Q102Q102Q102Q102Q102Q102Q102Q102Q102Q102Q102Q102Q102Q102Q102Q102",
    "Q102Q102Q102Q102Q102Q102Q102Q102Q102Q102Q102Q102Q102Q102Q102Q102Q102Q102Q102Q102Q102Q102Q102",
    "Q102Q102Q102Q102Q102Q102Q102Q102Q102Q102Q102Q102Q102Q102Q102Q102Q102Q102Q102Q102Q102Q102Q102",
    "Q102Q102Q102Q102Q102Q102Q102Q102Q102Q102Q102Q102Q102Q102Q102Q102Q102Q102Q102Q102Q102Q102Q102",
    "Q102Q102Q102Q102Q102Q102Q102Q102Q102Q102Q102Q102Q102Q102Q102Q102Q102Q102Q102Q102Q102Q102Q102",
    "Q102Q102Q102Q102Q102Q102Q102Q102Q102Q102Q102Q102Q102Q102Q102Q102Q102Q102Q102Q102Q102Q102Q102",
    "Q102Q102Q102Q102Q102Q102Q102Q102Q102Q102Q102Q102Q102Q102Q102Q102Q102Q102Q102Q102Q102Q102Q102",
    "Q102Q102Q102Q102Q102Q102Q102Q102Q102Q102Q102Q102Q102Q102Q102Q102Q102Q102Q102Q102Q102Q102Q102",
    "Q102Q102Q102Q102Q102Q102Q102Q102Q102Q102Q102Q102Q102Q102Q102Q102Q102Q102Q102Q102Q102Q102Q102",
    "Q102Q102Q102Q102Q102Q102Q102Q102Q102Q102Q102Q102Q102Q102Q102Q102Q0B7M039WH0eg3300sN3F0F3F0bK",
    "500a2310XH5B0lG300c8300ZO340WrQ32003104330W83203300a9310nE330X2340f6310XG330X73A0WH330YS4030",
    "400WL3E0W93001310932400WD423341310160033009600WI320W43440370F410WC300B31400WG423840300061043",
    "30040300XT42324133053001300a13042370K31410WN310030403043014101413008300941013602340X43041350",
    "030013000324000413260300D310XJ4237413240300M300XI30413540304130403140310cH30413301433140310Q",
    "310XJ4237413040310YC30403041370Y7304030013340340d7423840310cR30440041013360406040300ZG423301",
    "31433002400R390W8354000330730083541320W8653C40310i14036003540300XJ3L004036403140310YS3502300",
    "031003660300X344003100413040300g53141083160400WG41340241320M300am05F30053E0gxO3B42320XnF340W",
    "R360mS7002730kI30004WN06330XI300A310pi33100530ZwI3WE013M0mE340235573701360T330ZN320XWP3WN033",
    "WI07300D300L34003E0WhQ36003G0136003100340Y6300a4360h2300WT330lB330d5310sM360YF360Xe1DP0lA340",
    "vklQ5W03Y25Z33cM5Ys30bjf1"] }

/-- The property by which text is divided into words. -/
def wordBreak : Enumerated := {
  values := [
    [], ["aletter", "le"], ["extend"], ["numeric", "nu"], ["katakana", "ka"], ["format", "fo"],
    ["midnum", "mn"], ["hebrewletter", "hl"], ["midletter", "ml"], ["extendnumlet", "ex"],
    ["wsegspace"], ["midnumlet", "mb"], ["newline", "nl"], ["lf"], ["cr"], ["doublequote", "dq"],
    ["singlequote", "sq"], ["zwj"], ["regionalindicator", "ri"]]
  runs := Packed.pairs [
    "09D0C1E00HA000F003G0036000B000398060041P0390001P09C00W410015006100080100010041M001U001kE051W",
    "22YI14001101136010051080120010001J001XK001ZE00261aA001W601130010801W96010052WD00200021002100",
    "20077Q037310800A350561012A0050021WB2K390030600011201Y50010263000251121002311391201100E11201T",
    "2Q011XQ2A100D391W12811016000100120011L231028102210240H1O22031A041N0015003104281WA2N302W11WM2",
    "2102H102619210139001F2200170111011L001600100213012010260121012210072003110012210139110910002",
    "0012200150311011L0016001100110011012000240321012202200613001006392112200A2200180012001L00160",
    "0110014012010270022002201100E11210139081025002200170111011L001600110014012010260121012206220",
    "311001221013900100F201000150212001302110010001102110212021B032402220023011005200D390F2417001",
    "2001M001F012010260022002306210012011001112101390F102200170012001M001900140120102600220023062",
    "1051100112101390011200B23180012001W92110260022002310041220061221013909150022001H021N00180010",
    "01160220032500200027053901210WT2001260B2700390XO2001280A2600390W6100M2105390A200020002003211",
    "7001W4032J0021142A002W408200Y62J00390B2303220022012602230C2B00203923011W600100410011WB001fM0",
    "013011600100013011W90013011W10013011600100013011E001WP0013011X401220W01F0F1XN0115021oU011GA0",
    "1P041XC021A061H23081I220A1H210B1C001200210X12W0082001390W122502039051XQ0614211W22010041X7091",
    "U002B032B09390Z33A0W51M240WP29002S01203905390L2U0WH241WF2G1702390G280B221T2C11391WC2D0B1W42J",
    "07390212391W4011A041WB01120F22002K13201520112210041b52X11dT0115011W601150117001000100010001U",
    "011WL001600100212001602130115031C0412001602A600A20020H05107B109B00180C154900E9102600E9009A05",
    "4005900100C100F1C0WJ2W10G1003100119001002140510001000100013001A0113041403100G1W90v61WK0WwF1c",
    "B051322110B1W600100410011WO06100E201M08160016001600160016001600160016002W00WF100jTA003100W42",
    "5004404110XT2141024XS0043041WB001Y00G1W00WG4F0bL4WF004XP0xy81WbH0X41WE011dK021F39110J1WF2300",
    "29001U211XH210L1bB0111001000170K1F20122013201M2403200I1WK0B211WI2H0939052H150210001120391R27",
    "011M2C0B1S02231WF2D0D10390A200939051W92D081220172101390W1220WI2000220121042100200T1A24011221",
    "09150115011508160016001WQ051YL2700210139051goB0B1M031WH0ef4160B1404702079007C007400700071007",
    "100791Y40W11gL0H1X1011WM0W81B032F02800B2F02910N926000B00060800P14001ZA015006B0036000B0003980",
    "60041P0390001P0A4WO211U02150115011501120R52031B001P001I0011001E011D0W21YT0X61WL0ZB200Z51S021",
    "WH0E200U1W00C1T041W624041T011W4031700140WA1a20139051W4031W4031W8071WK0B1A001E00160011001A001",
    "E00160011021WK0B1f0081L09170N15001WA00180X6150110001WC00110210011M091M081U0X21I0011091L091P0",
    "X71WO05110X1102200210423130012001S012203200W01S021S0W317001R210O1WM091L091I0C1H0YG1XA0WN1WJ0",
    "C1WJ0C1W423073905391R0224001M0d11WA002102110F120WN231S0910071L2A0U1H230WA1K0Q1M08221WL2E0U39",
    "2011211008231WD2A013003200930011O063905221W42D003903102110071W320011008221WG2D13032300213910",
    "00100W31H001O2B052011200WU1600100013001E0019061WF2B0439052300170111011L001600110014002110260",
    "121012201100520041421012602240A1900100110001W600102800200120002300241020100C210S1WL2H1304390",
    "320120T1WG2J11001007390aA1WF2601280M13210W21WG2G02100A390W61WB2C100639053J0WP2E03390bB1WC2E0",
    "Y71X1390K17011001170011001N2500210123102010210B390X717011W7260126100010200Q10291W82610230720",
    "07102A1WE2F02100H1XA0bC1W10E390518001W5270027100E390N1T012L002D0XA160011001W6250220002100261",
    "020073905150011001W024002100241006390eU1I23082110201C001W22602240C39200XM100XG1yM0Y81YH0G1b9",
    "0Xs01Y30E1WYH5F20152E091ZZQ041nO0cYK1T2H390WtS1nA061U0039051XG0039051T01240A1WG2608130B39081",
    "K041I0iS1WD02390bB1X10Z31XC0320102WN06231C0X1110010200A210mWD430046004100400e7420WI400D430Xu",
    "E1YD041C02180619022100530ZfH390lL2WE012M0mE240225572701260T230ZN220j81XM001X8001101100111011",
    "3001B00100016001X2001301170016001R0013001400100216001fT011O001O001U001O001U001O001U001O001U0",
    "01O0017013WI0lF2WN032WI07200D200L24002E0WZI1U05150bQ26002G012600210024041WU0W1200YI1WD022616",
    "013903100fA1T200G1WC23390k41R23390bR1T2110390kJ1600130011001E001bA0A260W91X5261003390WcB1300",
    "1Q001100100110001900130010001005100310001000100012001100100110001000100010001000110010011300",
    "160013001300100019001G04120014001G0p71P051P051P0XTIP0lA240XYG390vii0500T2Y20Z32cM0bnX5"] }

/-- The property by which text is divided into sentences. -/
def sentenceBreak : Enumerated := {
  values := [
    [], ["lower", "lo"], ["upper", "up"], ["oletter", "le"], ["extend", "ex"], ["sterm", "st"],
    ["numeric", "nu"], ["close", "cl"], ["scontinue", "sc"], ["format", "fo"], ["sp"],
    ["aterm", "at"], ["sep", "se"], ["lf"], ["cr"]]
  runs := Packed.pairs [
    "08A0D0A1E00HA0507003720181B00069810250002P700070021P70007006C00PA008107000900610031070032M00",
    "261N0017201020102010201020102010201020102010201020102010201020102010201020102010201020102010",
    "20102010201020102010201020112010201020102010201020102010201120102010201020102010201020102010",
    "20102010201020102010201020102010201020102010201020102010201021102010201221102010211022112310",
    "21102212211021102010201021102011201021102210201021113020123321102110211020102010201020102010",
    "20102010201120102010201020102010201020102010201121102010221020102010201020102010201020102010",
    "20102010201020102010201020102010201020102010201020102010201020102010201020102010201621102111",
    "20102310201020102010201X6301W43611033B0D14063000300G4YI2010201030002010011380200520002200200",
    "021102G00281W320112212201020102010201020102010201020102010201020102014201000201021112WJ1WG20",
    "10201020102010201020102010201020102010201020102010201020102010201000462010201020102010201020",
    "10201020102010201020102010201020102010201020102010201020102010201020102010201020102010211020",
    "10201020102010201020112010201020102010201020102010201020102010201020102010201020102010201020",
    "10201020102010201020102010201020102010201020102010201020102010201020102010201020102010201020",
    "102010201020102010201020102010002W601300280011W950064WD0040004100410040073Q03340B650581014A0",
    "090523WB4K6900610031403Y5503046600045314100433169320130520B9030403T4Q013XQ4A300D693W14831018",
    "050300140013L43304830423044085000500251003O42033A043N0035006104483WA4N604W13WM42304H30463941",
    "5169003F4200370131013L0036003002330140304601410142300740033100324101693109300040014200350331",
    "013L0036003100310031014000440341014202400633003006694132400A4200380032003L003600310034014030",
    "470042004201300E31410169083045004200370131013L0036003100340140304601410142064203310032410169",
    "00300F403000350232003302310030003102310232023B034402420043013005400D690F44370032003M003F0140",
    "30460042004306410032013001314101690F304200370032003M0039003401403046004200430641053100314101",
    "690031400B43380032003W94130460042004330043240063241016909350042003H023N003800300136024003450",
    "0400047056901410C3WG40314604364700690W73100300034003N0030003940314830013400300046006901330W0",
    "300M4105690A4000400040734137003W4034J0041344A004W408400WP3WB4J30695103354333423042314632433C",
    "4B30406943012W600200420013WB00103fL0033013600300033013W90033013W10033013600300033013E003WP00",
    "33013X40142015003510M3F0F2XN0115023oU00503GA03P71023XC023A063H43083I4251083H410B3C003200410B",
    "3WK4W051003003304001690N80500380500042904069053XQ0634413W24030043X7093U004B034B0751693T01340",
    "A3WC033P056A0W53M44033WL49004S01406905690C3053034U0WH443WF4G370051695101510A480852423T4C3169",
    "3WC4D0B3W44J025102690232693W451182010043WB01320F42004K33403540314230041b54X12010201020102010",
    "20102010201020102010201020102010201020102010201020102010201020102010201020102010201020102010",
    "20102010201020102010201020102010201020102010201020102010201020102010201020102010201020102010",
    "20102010201020102010201020102010201020102010201020102010201020102010201020102010201020102010",
    "20102018201020102010201020102010201020102010201020102010201020102010201020102010201020102010",
    "20102010201020102010201020102010201020102010201020102010201020102010201020102010201020102010",
    "201020102010201020182715012501172717271501250117002000200020002017271D0117271727172714001124",
    "001002120011240213011123031724041200112402AA9041910281027703B002C194A0087100510671520KA09400",
    "9900100A71100C71001C0WJ4W10G2003200110221122100020022405200020002000230010231033100111210420",
    "1303100G2F1F322010330hA730S710hM2P1P0p475067D0XG710U790hU7L0X0730W0710lH2WG1WG20102211201020",
    "10201023102011201722102010201020102010201020102010201020102010201020102010201020102010201020",
    "10201020102010201020102010201020102010201020102010201020102010201020102010201020102010201020",
    "102010201020102010201020102010201105201020104220100452031W600100410013WO06300E403M0836003600",
    "3600360036003600360036004W07D0D7101790350300B5004700F51770iFA0805001327901770072003845003401",
    "34033XN01410132003XR0033043WB003Y00G3W00WG3F0lF3bvJ0X13sWM0X43WE00503dK00513F69310J201020102",
    "01020102010201020102010201020102010201020102010201020102010201020102010201020102010304300490",
    "03020102010201020102010201020102010201020102010201020102012413XH41005002500U3801201020102010",
    "20102010201020122010201020102010201020102010201020102010201020102010201020102010201020102010",
    "20102010201020102010201020102010201020102010201920102010211020102010201020103001201020103020",
    "10201220102010201020102010201020102010201020102410241020102010201020102010201020102310201021",
    "1001201000100010201020102010200K12201030123640324033403M4403400I3WK015107413WI4H075169054H35",
    "0230003140693R4700503M4C0B3S02433WF4D0651043069053440396934003W94D0832403741016902523M023042",
    "3WI403042314134413040300N32013A4451324109350135013508360036001WB001D051XH3W34750410169053goB",
    "0B3M033WH0dtJ3gO013YC0W6160B1404304039003C0034003000310031003YE0W13gL710F3X1013WM0W83B034F81",
    "50815171064F0081017F01710681B0008151807503800B34003ZA0190005005710181B00069810250002P7000700",
    "21P7000700071507180003WO413U02350135013501320R92033B003P003I0031003E013D0W23YT0X63WL0ZB400Z5",
    "3S023WH0E400U3W00C3T043W644043T013W4033700340WA2W81W83XF0169052W4031W4033W8073WK0B2A002E0026",
    "0021001A001E00160011023WK0B3f0083L09370N103112001WA00180X6350130003WC00310230013M093M083U0X2",
    "3I0031093L093P0X73WO05310X1304200410443330032003S014203400L51073S023S0W337003R410O3WM093L093",
    "I0C3H0YG3XA0WN2WJ0C1WJ0C3W44307690569352L024400301L0d13WA004102310F320WN433S0930073L4A03540L",
    "3H43530W63K0Q3M08423WL4E510S694031413008433WD4A016053400960013O066905423W44D0069005230413007",
    "3W340013008423WG4D3351014350416930003000510W03H003O4B510051004031400WU3600300033003E00395005",
    "3WF4B0469054300370131013L003600310034004130460141014201300540043441014602440A3900300130003W6",
    "0030480040014000430044304030510A410S3WL4H335102690340320T3WG4J31003007690aA3WF4601480051045E",
    "33410W23WG4G5100300A690W63WB4C300669056J0R3Q014E0369015200360aT3WC4E0Y72W01W0690K37013001370",
    "031003N45004101433040304150005008690X737013W7460146300030400Q30493W84630430251024007304A3WE4",
    "F0051300H3XA0bC3W10E690538003W547004730510C690N3T014L004D0XA360031003W6450240004100463040076",
    "905350031003W044004100443006690eU3I4351064130403C003W2460244510A69400XM300XG3yM0Y83YH0G3b90X",
    "s03Y30E3WYH9F40354E093ZZQ043nO0cYK3T4H690WtS3nA063U006903513XG0069053T014450093WG46510633500",
    "A69083K043I0iS3WD0051690bB2W01W00N500Y93XC0340304WN06433C0X1310030400A410D3bgS073WdS0W9390ee",
    "63300360031003eB0E300S3201300D33073hN0XhD3YD043C02380639024150930ZfH690lL4WE014M0mE440245974",
    "701460T430ZN420j82P1P2P16001H2P1P20002101200121012300271300100016001A2P1P21002301270026001P2",
    "10023002400200226001P2P1P2P1P2P1P2P1P2P1P2P1R012O001O00152O001O00152O001O00152O001O00152O001",
    "O00152010016WI0lF4WN034WI07400D4002500H44004E0WZI19301J05150bQ46004G014600410044041WU0W1400Y",
    "I3WD024636016903300fA3T400G3WC43690k43R43690bR3T4130690kJ3600330031003E003bA0A460W92W21W2463",
    "003690WcB33003Q00310030013000390033003000300530033000300030003200310030013000300030003000300",
    "0310030013300360033003300300039003G04320034003G0p72P052P052P0WeJ720Wj3690WX63Wij10W03ZeU053c",
    "4013azQ0D3ct10E3p10XmG3mE0WmH3aZ9043Zg60swp0900T4Y20Z34cM0bnX5"] }

end TagLint.Unicode

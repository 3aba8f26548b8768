import TagLint.Unicode.Category

/-!
The general categories of all code points, as runs of code points with the same one.
-/
namespace TagLint.Unicode

/-- The categories in the order of the numbers that stand for them. -/
def categoryOrder : List Category := [
  .unassigned, .lowerLetter, .upperLetter, .otherLetter, .nonspacingMark, .otherPunctuation,
  .spacingMark, .otherSymbol, .opening, .closing, .modifierLetter, .otherNumber, .digit,
  .mathSymbol, .modifierSymbol, .currency, .format, .dash, .letterNumber, .initialQuote,
  .finalQuote, .titleLetter, .space, .connector, .enclosingMark, .privateUse, .control,
  .lineSeparator, .paragraphSeparator, .surrogate]

def categoryRuns : List (Nat × Nat) := Packed.pairs [
  "QW0M052F052809050D050H051C951D2512P805090E0N0E01P80D090D0QW1M050F37050E07030J0D0G070E070D0B1E0",
  "1051E0B030K0B2502MD0261ND017201020102010201020102010201020102010201020102010201020102010201020",
  "1020102010201020102010201020102010201020102011201020102010201020102010201020112010201020102010",
  "2010201020102010201020102010201020102010201020102010201020102010201020102010211020102012211020",
  "1021102211231021102212211021102010201021102011201021102210201021113020123320L01020L01020L01020",
  "10201020102010201020102010201120102010201020102010201020102010201120L0102010221020102010201020",
  "1020102010201020102010201020102010201020102010201020102010201020102010201020102010201020102010",
  "201020162110211120102310201020102010201X6301QAHE3ABEDA4E6A0E0A0EG4YI20102010A0E0201001A0125020",
  "03E120502200200021102G00281W3201122122010201020102010201020102010201020102010201020142010D0201",
  "021112WJ1WG201020102010201020102010201020102010201020102010201020102010201020107044O1201020102",
  "0102010201020102010201020102010201020102010201020102010201020102010201020102010201020102010201",
  "0201021102010201020102010201020112010201020102010201020102010201020102010201020102010201020102",
  "0102010201020102010201020102010201020102010201020102010201020102010201020102010201020102010201",
  "0201020102010201020102010201020102010002W601A0551W950H00171F0004WDH040504150415040073Q0333510A",
  "G5D251F051714A50G0523W0A0394KC95331403Y5503046G07045A141704331C93271305D00G030403T4Q013XQ4A300",
  "DC93W148A17052A00140F13L43A048A042A044015E003O420150003A043NE03500G104483W9A04NG04W0603WM40604",
  "03062476340613046394151C950A03E406100370131013L00360030023301403062430161016140300760033100324",
  "101C931F1B570F030504001416000350331013L003600310031003101400062410341014202400633003006C941324",
  "05009416000380032003L003600310034014030624400416000614001300E314101C950F0063045004061003701310",
  "13L003600310034014030604060430161016140064160033100324101C97030B509403000350232003302310030003",
  "102310232023B036140610262006240013005600DC9B275F07004406240370032003M003F014030426300420043064",
  "10032013001314101C90650B67030406150370032003M003900340140306040640040610061410661053100314101C",
  "90031600B4161380032003W94130624300620062403070033260B6324101C9B87035004061003H023N003800300136",
  "02400362420040006705C90161500B3WG40314603F035A04750C9510W53100300034003N0030003940314830013400",
  "A0004600C901330W030725E7050724175C9B9704070407040809080906137003W4034D60445041344A004W40077407",
  "500715473510W53WB614360456041614130C95535614133423062316632433C40614165403060C96240712W6002004",
  "20011WB50A0123fI0033013600300033013W90033013W10033013600300033013E003WP0033013X4014258BJ023F79",
  "052XN011501H03oU70503GM03P8090023XC52I237063H4260083I416051083H410B3C003200410B3WK416046674061",
  "4A52A052F0304001C905B90555H05342G040C9053W3A03WL0634413W24030043X7093U004263416203614065420370",
  "0251C93T01340A3WC033P05C9B0027W23M41614001513WL6040604600406040614765490140C905C90556A055014DO",
  "04F0WH43603WF4060446040644061370051C9567948785241603T60436141604231C93WC406041624060426107533W",
  "4674761410254C90232C93TA551182010042WB0122570742504C60463340354031604130041WCAX01CA01W2AW54X12",
  "0102010201020102010201020102010201020102010201020102010201020102010201020102010201020102010201",
  "0201020102010201020102010201020102010201020102010201020102010201020102010201020102010201020102",
  "0102010201020102010201020102010201020102010201020102010201020102010201020102010201020102010201",
  "0201020102010201820102010201020102010201020102010201020102010201020102010201020102010201020102",
  "0102010201020102010201020102010201020102010201020102010201020102010201020102010201020102010201",
  "02010201020102010201020182715012501172717271501250117002000200020002017271D0117L717L717L714001",
  "123L0E010E212001123L0E21301112300E21724E20112001123L0E100MAG4H551J0K080J1K080J057R0S0G4M058J0K",
  "053N152D080905AD050N059M0G400G9B0A001B5D28090A0B9D2809000AC02FW10E4CO340O24B0E7120732071102211",
  "2210702071D0247520702070207023701023103310711121D4201370D0711070BFIW32010I3B07103D474D173D071D",
  "071D076D07UD171D070D07UDdJ77809080907JD17680907XID07TDO7W8D57X90L7A0KBWS7XFBL7aRD078D07WMD77YH",
  "D07cU8090809080908090809080908090BT7WCD48090DU80908090809080908090DF7d7DZ680908090809080908090",
  "809080908090809080908090DX080908090DW08090Dd97WGDK71D57W7017W0007YB2WG1WG201022112010201020102",
  "31020112015A1221020102010201020102010201020102010201020102010201020102010201020102010201020102",
  "0102010201020102010201020102010201020102010201020102010201020102010201020102010201020102010201",
  "020102010201020102010201175201020104220100453B0511W600100410013WO06A0500D403M08360036003600360",
  "036003600360036004W051J0K0J0K052J0K050J0K058H051H050J0K051J0K0809080908090809054A059H153H05080",
  "5C71528090809080908090H00W27P007XQ0B7bR0P7FM05270A030I080908090809080908090718090809080908090H",
  "0809170I84361H0A471I2A0305071003XN0141E1A130H03XR50A230043WB003Y00071B3793W07W608703F7U00B97TB",
  "770BE7W0B97W7BE7f93bvJ7X13qvPA03WaQ027WN083W8A5513dJA0523FC9310J201020102010201020102010201020",
  "102010201020102010201020102010201020102010201020102010201020103040O2504950A0201020102010201020",
  "10201020102010201020102010201020102010A1413X7I9415507EMA8E120102010201020102010201020122010201",
  "0201020102010201020102010201020102010201020102010201020102010201020102010201020102010201020102",
  "01020102010201020102010A0172010201021102010201020102010A0E120102010302010201220102010201020102",
  "0102010201020102010201024102410201020102010201020102010201023102010211001201000100010201020102",
  "010200KA2201030A1103640324033403M614160734002B571F070053WK5307613WI6F410751C9054H355230503140C",
  "93R47513M4A610A503S0242603WF4061436141625C00A0C903513440A038C934003W9456141614108324037406001C",
  "901533FA03572306040603WI403042314134413040300N31A0513A6041615130A1604009350135013508360036001W",
  "BE0A318A0E1031XH3W3614061406150604001C9053goB0B3M033WH03TXZ1PbpD3gO013YC0W6160B1404304039D03C0",
  "034003000310031003YEEG0F3gL90807F3X1013WM06700W03BF0724F56809050054F50H1N180908090809080908090",
  "80908090809051809053N2520053H080908090809052D0H0D20050F0510334003ZA01G00052F052809050D050H051C",
  "951D2512P805090E0N0E01P80D090D080905080905139A03WDA13U023501350135013202F1D0E070F10070D37109G2",
  "71013B003P003I0031003E013D0W23YT045203BWD0278IWLB37GB172007C02700WF7WD400Z53S023WH0E40BQ033W0B",
  "3083JI037I0043W644043T00503W4033750I40WA2W81W83XF01C9052W4031W4033W8073WK0A502A002E00260021001",
  "A001E00160011023WK0B3f0083L09370NA500AWA00A80X6350130003WC00310230013M0050B73M71B63U07B80WG3I0",
  "03104B43LB502503P04500X13WO03B131BF01BWE304200410443330032003S01420340B80658063SB1503SB20W0377",
  "03R4103B456083WM02563L01B73I04B73H06530BB60XH3XA0WN2WJ0C1WJ06B53W44307C905C933A0302L0244H0A01L",
  "07D10bLBU003WA0041H001310F320WN433SB930073L4AB3540L3H43530W63KB60J3M086040603WL4E5603BJC940314",
  "1300842603WD6243614151G0534009G0013O06C905423W444604700C953306130073W34051300841603WG624861335",
  "343506040C93050305200BJ0A3H003O624261406041554031400WU3600300033003E003950053WF40624704C905416",
  "100370131013L0036003100340041306140630161016201300560043461014602440A3900300130003W60030624500",
  "6001600063006140604030403051005107410S3WL6247614260403354C951005040320T3WG62456040634160413150",
  "3007C90aA3WF624301634160415M33410W23WG62476140604152300AC9055C0I3WB40604061456040305005C905CJ0",
  "R3Q014060406143604403C9B15270360aT3WC62486041500Y62W01W0C9B80B37013001370031003N65006101416040",
  "30603060405208C90X737013W7624301416340305030600Q30493W845603043574007304561423WE4C60415230540C",
  "3XA06590aQ3W1500DC90538003W5604600456040305409C9BI02513T014L006046604160410XA360031003W6450240",
  "00410046304007C905350031003W064004100614060403006C90eU3I416151064130603C003W2614402614060405CC",
  "9400XM300EBK77F37G0C503yM0Y8IYH00540A3b90Xs03Y3510C3WYHGF40354E093ZZQ043nO0cYK3T4B6242C90WtS3n",
  "A063U00C903513XG00C9053T014450093WG465473A3507009C900B6003K043I0iSA23W8A152C90bB2W01W0BM530Y73",
  "XC0340306WN0643AC0X1A150A0400A610D3bgS073WdS0W9390ee6A300A600A1003eB0E300S3201300D33073hN0XhD3",
  "YD043C0238063901704150G30ZXP7cMC9057j10XD4WE014M087YM0WS7cS097W7017WS61427265G74771467T437WT0K",
  "7X342700YSBJ0BBJ0B7XO08BO0ZA2P1P2P16001H2P1P20002101200121012300271300100016001A2P1P2100230127",
  "0026001P210023002400200226001P2P1P2P1P2P1P2P1P2P1P2P1R012OD01OD0152OD01OD0152OD01OD0152OD01OD0",
  "152OD01OD015201001CWI7lF4WN734WI77407D4071540E44004E0WZI19301J05150bQ46004G01460041004404AWU0W",
  "1400YI3WD0246A601C90330700f93T400G3WC43C904F00jT3QA043C90bR3T4130C903500kE3600330031003E003bA0",
  "1B8460W92W21W246A003C903510u9BWR70B2F0B30XDBWD70BE0b733003Q00310030013000390033003000300530033",
  "0003000300032003100300130003000300030003000310030013300360033003300300039003G04320034003G0WKD1",
  "0dL7WC037Y60B7E017E007E007W509BC7a50WO7S0C7WC037806710D750ZT7d2E47sE037G027C027YP037Y1057B0370",
  "0E7B037WO0779057W8077T017B03710WU7fT0B7D017C0279047WO067E017A0578067ZM007XTC90WX63Wij10W03ZeU0",
  "53c4013azQ0D3ct10E3p10XmG3mE0WmH3aZ9043Zg60swp0G00TGY20Z34cM0Xaq1PXbaU01PXbaU01"]

end TagLint.Unicode

import SqlCode.Text.CodePoints

/-!
# General categories

Every code point has one general category; those without an entry here are unassigned.
-/

namespace SqlCode

/-- The general categories of assigned code points. -/
inductive Category
  | uppercaseLetter | lowercaseLetter | titlecaseLetter | modifierLetter | otherLetter
  | nonspacingMark | spacingMark | enclosingMark | decimalNumber | letterNumber | otherNumber
  | connectorPunctuation | dashPunctuation | openPunctuation | closePunctuation | initialPunctuation
  | finalPunctuation | otherPunctuation | mathSymbol | currencySymbol | modifierSymbol | otherSymbol
  | spaceSeparator | lineSeparator | paragraphSeparator | control | format | surrogate | privateUse
deriving DecidableEq, Repr

namespace Category

/-- The categories with their abbreviations and names. -/
def all : List (Category × String × String) :=
  [(.uppercaseLetter, "lu", "uppercaseletter"), (.lowercaseLetter, "ll", "lowercaseletter"),
   (.titlecaseLetter, "lt", "titlecaseletter"), (.modifierLetter, "lm", "modifierletter"),
   (.otherLetter, "lo", "otherletter"), (.nonspacingMark, "mn", "nonspacingmark"),
   (.spacingMark, "mc", "spacingmark"), (.enclosingMark, "me", "enclosingmark"),
   (.decimalNumber, "nd", "decimalnumber"), (.letterNumber, "nl", "letternumber"),
   (.otherNumber, "no", "othernumber"), (.connectorPunctuation, "pc", "connectorpunctuation"),
   (.dashPunctuation, "pd", "dashpunctuation"), (.openPunctuation, "ps", "openpunctuation"),
   (.closePunctuation, "pe", "closepunctuation"), (.initialPunctuation, "pi", "initialpunctuation"),
   (.finalPunctuation, "pf", "finalpunctuation"), (.otherPunctuation, "po", "otherpunctuation"),
   (.mathSymbol, "sm", "mathsymbol"), (.currencySymbol, "sc", "currencysymbol"),
   (.modifierSymbol, "sk", "modifiersymbol"), (.otherSymbol, "so", "othersymbol"),
   (.spaceSeparator, "zs", "spaceseparator"), (.lineSeparator, "zl", "lineseparator"),
   (.paragraphSeparator, "zp", "paragraphseparator"), (.control, "cc", "control"),
   (.format, "cf", "format"), (.surrogate, "cs", "surrogate"), (.privateUse, "co", "privateuse")]

/-- The code points of a category, as ranges. -/
def table : Category → String
  | .uppercaseLetter =>
    "CnoEnl35Au222222222222222222222222222422222224222222222222222222222230227023031523031703022302430312306e444222222
     2422222222443122222222222222222222222222222f0304322222P226gc312303f37Ay51622222222222a4305AdBo2222222222222222i22
     222222222222222222222222302222224222222222222222222222222222222222222222222222225A0FDjA02aAN5BcDQydA551Qs22222222
     222222222222222222222222222222222222222222222222222222222222222222i2222222222222222222222222222222222222222222222
     22j6h4l6h6h4m222h6D12p2p2p3n2Nk87151473c223252l0aCeES5AaBo314223224h122222222222222222222222222222222222222222222
     22222g28BNI62222222222222222222222A22222222222222Gi2222226222222222222222222222222222222k230222282426222222222333
     32222222322306a222AcAUQroBOvA2GlyHp93d3530CTdAdHrkFCpuATT1uBCOdoAhoAhoAg304505236AhoAh0325635Aj03233275AjoAhoAhoA
     hoAhoAhoApnAvnAvnAvnAvnAuIJrw"
  | .lowercaseLetter =>
    "EfoC8Bbm3622222222222222222222222222230222222230222222222222222222222224231424708471442243024625051c4422222223022
     22222230426222222222222222222222222222235450282223Av3pJq2671A0Ajx307122222222222332450BvAa22222222222222222i22222
     22222222222222222222242222230222222222222222222222222222222222222222222222222BpA3FDfA551AP94DQ172FjA6Cjb3wEo22222
     22222222222222222222222222222222222222222222222222222222222222222222372222222222222222222222222222222222222222222
     2222237h4l6h6h4l6h6hc56h6h6h330c7130h250h6l130O8706Ai8850h28ByEUrAa27022283034a2222222222222222222222222222222222
     2222222222222230e28pA02aBNEy2222222222222222222222A22222222222222Gi2222231222222222222222222222222222222236224222
     2824312222222222aa2222222824622222Ag6ASnA5b7fB6AQI55p3BG7oBPbA2GlyHn93d3530CUrAdFzkFCpuATT1uBCO1oAh53gAhoAh223539
     AhoAhoAhoAhoAhoAhoAhoAhoAhqAln34Ahn34Ahn34Ahn34Ahn342CXh83id4EKrw"
  | .titlecaseLetter => "Y644B4PDr6h6h6ouBm"
  | .modifierLetter =>
    "AL9g9at3e2GeaZkLsI50Nz08Aqi6HwIaBPoG2AEeCSgEyAGyYt4IpApqAxzALaqxbFLv0MeJmZ2Bf3aEf0E71BHSwBQh4O0FcAl0Fr7DgAaEv170Z
     2A8GmF0A70Er2iASY0Bj0DH143A437CAaAsAYH92AB91B90ADlbCl02AHZx23530ZIfAoK75AZaBJ6"
  | .otherLetter =>
    "IguN892KkASzp92Bju38Az03Bp2Ad0l14w3sAnBfmAdvA7kBdnf9bm34zA3CbAg6A0f8xd96505k352726wr031t0kh4905k35303030Ar22A31x7
     313k3530336A0v0Aan6505k3530336Ap031uy3471327023070717aA8Bx6313l3e6Ah1450Ao96313l38336Ar030v0z7313A34wb1h1Ad4bg7m3
     7255C9Aa30p4Cb02333m23830i53Ab2AsCj63yAj3FfA5A4x492670f19boFbI332552325A3325v32552325d3Aj325AtB3eFbQ65f3obB1d6fgr
     htgtb31vAeB8Crx3Aff35w2bAwltBrs53nA69oC1ljAfItA9z6C1sr0lA6AhyBb1lsFb234306BH52FN7AiAdlj535353535353535ADmBy9Bcg3B
     g8bA53BkzuBpeABhGA2ClVKn3AEpCrA2hGe9el0CoBrAwIeEq7531323lAnAetAcCh4630nqllAfrfA9Bj357l33A3Ab136A5e3467Ac2705342Ad
     079et45454j535H3xAnKXapl9AbRAlJ45BwCq383b33230303ByAvJ1A1Aq5AgB9aFh33CpEv83A75t74545451Aza3o3h303d5cAxCdUnr7AbBnu
     ri36dA0ls5y96G5B4EhA2hAeE5AepHljkl6Hh443A63065llljtCnh30lkloCxAid0Ckv2313rBdr7rAz63qAjAglklhrgF5AzJ7yB522PxA4d0x1
     CbrkhkBdgBljAjlpAfC704rA7AtnAhyAm4hx6pAat2A62Azg3nA30Cj52323d38fA9B56505k3530336A0p3Ap8243A02Ae2BhAfA12A51ApAaA50
     2J9A9Bb2B1AaA4CbA5qCzpB35JbA6Kr6456303mu2E965A1w2AklA2eA6nA8A2A1AzK3vAr73zyBrsF95303A0A6Af4303usR7hu3b3wFwDfYkLtE
     eEPhBnvACqz4AfDFxbP5NP3sCSxOrftzB5zsA1AaBvjbhX7A2VjB1aIrFNehAHcBb8SCbH1uAn14t2hJyDX9Bxbb77f8RUsAAvA7AuQvsA1A6ZxpL
     rs4AAj532303d3EfBVf23p3024383222c8223130242222302523532322383fb1333fIKlASPmAtDKcdF45FD0tGYjvQ8EG1O0CEpEG5bDLe"
  | .nonspacingMark =>
    "APpC2Ob3NrA7230302D19BpjwEn5545032AyAppE39C97iAd2373133Bf1Cb7Bdm3uC2296875l0AmC892gA50Ag50C69090516Ap06n0C693308A
     50A942C8432gf0n0AoCeoBs6C231b132f0n0AmC84cb0A50Al0C7092gA50AmD0f12E055p6Eg57n5D30Ai22C3c3330b93yiEp2343050Af091x2
     q50cuAM31AZl1An0Ap0Ap0Cl035g59iBj12Fj0AwFl190id1L704C8352256d84Bpc3eBr2Bo332aB97p0At25031C430631C9650Hh13b358c70K
     1AqAN1b87aFNl1GuEduADt2Ez0BLKs98At0Dh0O468Af0aHf0AhgqB56Af9Bl1Bo5250B6Cr45050ogBmBu3150b02Bd0gM848AQH8ANzexeBB2Lk
     Hb3CNt130b2B918I70AEv2Cn3Qn0Df2Cx9Br2FuC1dBa50l1Br250eCf1B1336Cgp0Bx7l24Eb1430c4Hq76A70C706B3573Cx4q22t0Dr6512AaD
     p429030M92d030Aj0Dr6430Ew2542Em25233Nf730N9028H12508At8B9452gj451Blb30Vl5342Dlk553030Ft4630352D1062Sb0n0Bx3a2AaKK
     6ddXLxa71EHp3Cb5BF8Cj2DiAOY50JAfA85lAD91z655Ap2H91DEzAh9AcgsA933dBWl53f553033EkHx5TuCf2AB92N50ANx5F35BMCIvFm"
  | .spacingMark =>
    "DX6C251h230Bt0C91d050kBeC91CoC91g30Bz0C82d050kEp0307131kBb1Cf2Cf0C8335030j0Akt0C91b131kBd0D71d6A10Rd0CiIj08c50Af0
     l155A70544l1CN0AoG6f630S92519034Lh0C82i30h4H2Boa3330CeAo904Cc51270Bp6h0IiA6JM90BMOz04Dx0BteGx0BmBp09051F5050AcBi2
     F250aM7030302BBSa2G2Bj190FeAd0CaBp1j0qE71702Ih1Ar0C90325051il0Dp1e432302En1h06Ex1c324M71d24Fb1h02F230cEq308Nj1iMr
     430842Gx1h28DoAn0CgVmsEwe4Kv3902Sh0oBp0h02AJAd1GS5AhEt0BAGz0d4"
  | .enclosingMark => "BLh0LCsCI1231BUAb1"
  | .decimalNumber =>
    "Bp8CIh8Gh8K18Vx8Fl8Fl8Fl8Fl8Fl8Fl8Fl8Fl8Fl8Ed8Fl8Cx8Oh8Cx8CYh8B58Pp8G58I98d8J58Dt8Gh8d8BWIh8AKp8B58K18A98Dt8Vl8AS
     Kp8BZl8DQ98d8AR98G58Cd8H18Oh8S18Fl8Tt8Ep8diD98Wh8Ep8AJt8Dt8Mp8Cx8Wh8AIZd8DZ58Dt8Gh8ACp8AZEp8EX1AcEAl8Wh8AAx8Mr8AU
     f8JDd8"
  | .letterNumber => "LN51ERfx52GX4Af7t1BLWr8AWJhAfYkgGh3QOhC1"
  | .otherNumber =>
    "Ix0a51DZz4Tx4Fp1Gf5L35z7X38BGviBKb8ZoCOm74d8K1eBaANdAmDdkAI1sBXyBM52Gp8Ap63dAt8B7dBLF94AVO7A7Cn2z0RzpB12BV16Af5B7
     7D73A94Hx05e5A8Cl7Bx0Ap1D73Et6Ad6Bb5Rd4SltHt8Bd2F95GhiU3iBVz0Wx7AVfhAUbjAOH55ARdlBBTjipiF1nKQ17AYnAl3132D9A73dBAh
     b"
  | .connectorPunctuation => "EaQKb0A2DQIh0Ad1Ma"
  | .dashPunctuation => "BiBX8BuGTqBE6DJb4GQ64Ar08AkXsA2F6DHKl0B2kIeGVgQo"
  | .openPunctuation =>
    "B8BsAqHAo2CZsEE06B4C2uAI82AoBHc222222DgAs2222Vg2222222222Ck2AuBFy222AeA0222Ws222262224DHEeKyAm22222226y22IgBsAq64"
  | .closePunctuation =>
    "BaBuAqHAm2CZsEGeC2uAI82AoBHc222222DgAs2222Vg2222222222Ck2AuBFy222Bg222Ws2222622250DHE8L2Am22222226y22IgBuAq44"
  | .initialPunctuation => "IiQDw504AeGN0284u6"
  | .finalPunctuation => "JeQD26AkGN0284u6"
  | .otherPunctuation =>
    "Av1314230l070AiCsat0eAM0gYx4BaC044Bh0A5030q31D52EoBfcLz1C1dAqNj0kGsFoFqUooTeE0l0Idd2F8D5390F74IiAH17APyFx1Cz0Hr13
     1B3432Qf0L10G5534Hx0l5Al1Fx2Cb3Ch0Cl6mATd0h6h7525179238FW9230F8Gz09145730250l3385223b51Wt1C6JiBKKx0Nz1EikFf4U52Dt
     0B912Br0BmEfbx0Fx2G10x0MuARX954A8A50527132f1c30Hb1314230l070AiB050Vt1AK4BoW0AOaK2AqO57B4F95Cp5Dz2AZx3Bh2Jj5F3032G
     12Bp0Df28q31Dx4EyPl030Fd3l02EsMxlEv1AlbD8G91N0Np1HmE56Dn133E78KyEb3Bd0AIv0D5bIqBK53FGd0AEYr0GeCn3gADp1Pf2R6AOYcPI
     b3FFuAUx0"
  | .mathSymbol =>
    "Bex1Ce2Bi8B2AqAPkACb1NI2qB71r1GqB73cCt3b0844eAr042ArGeAt0E0ApnB94Z2iC16F6Rp35tleN9ClA9Ap9u5G4Bpj54DIR8ASs31I4x1Ce
     2Gad2GKv0DFAeAeAqAeAqAeAqAeAqAeLQl0"
  | .currencySymbol => "B0Fz2BQuFuAAp0AAp0eMmNmAFaEFmDTpvBVBmATWqF0HkL7070QLl2DBS0EGs"
  | .modifierSymbol => "E82Cyc86ABz2pcb523fFit0BS8LR031n1r1r1r0IB90BLSrlj0Er0BB8t0AQWpfAWi2I0ECMj3"
  | .otherSymbol =>
    "I8482BBaNt0G30KgkA30MqABmTqG942GcKiBaUr1u3154A422Gf63430b2Jz0AOt8AN6AN4HrwSn8j7BZf03230k30d42228n0s302C90j3523030
     353t5023tNx69i555B73sAfA2dAyA99DjB4A9E1373AghC13FuBhA6ClG2ABhAaA70dA15u3BvLr4Sv0Blo3BfpEwAhe8r0oA70d0Rp098AtA0ixt
     nsgvulA1vHuNB9AqAUI5AhAV32l02AEv1ASG9eG2Bj1Zw690r0Qf7C7f513b6BnA7CN50AFuFU8DR369fAODt2aARLsHJvFmxL2HpC6CdFslA15Am
     b1A90fs9AnA7As6JdBdBNbN6C32Bt63c30CRgFEkG6AN3A69Bqpd5d3d3zAbDfC5rrA697f0t4HlFxbT69f7b7C99Blda8va9Aih8dA2hs5a90ChI
     epc5b78bAifd59d7fD13Bi"
  | .spaceSeparator => "AsG2KY2EE39B0BmHN8"
  | .lineSeparator => "QOc"
  | .paragraphSeparator => "QOe"
  | .control => "1uEbv"
  | .format => "ImBWp4A8JoBqUd0DgHGqDIl3Ah3Br338DQSaMv1IDauSI9eBVOl2KIz6BMOVcApBm"
  | .surrogate => "DND1BDu"
  | .privateUse => "DRMtFUqBWNH1BQZc5BQZc"

/-- The code points of every category, read from `table` once. -/
def ranges : List (Category × CodePoints) :=
  all.map fun c => (c.1, CodePoints.parseGaps c.1.table)

def codePoints (c : Category) : CodePoints := (ranges.lookup c).getD []

end Category

end SqlCode

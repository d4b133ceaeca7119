import SqlCode.Text.CodePoints

/-!
# Ages of characters

The version of the character set in which a code point was first assigned.
-/

namespace SqlCode

namespace Age

/-- Every version, in order, and the code points that it added. -/
def table : List (String × String) :=
  [("1.1",
    "1Mw9sC5BffA938A9AwAh0A1086b523i3A63562223gra3As3a3A3jAf50507q5650C3A0553A12B5837ppb3Aas63obhrc5Ay533d3s58ABv13Af5
     g537nx136505k352724355051i90335je54905k353030304339051n22fdp1352313k3530335831314ub8z136505k353052567051h0903199z
     03471327023070717631937132ivat136313l3833953132f0j098A1036313l3833953132f0e3098A1036313l3e945132ih098H3Ak9rB30250
     24d2353122503b31532345850Y1A0lA189BgbAubB8FO1D9bBgdk545A054562223t5Af3d3c543h51373A93lAz57pz9B3gApAjAhAarBhA7Fos3
     CbGfzAj9A7CtA7D4lB6xidBcH32325q3x23263555tt7m3cDMfAie3Ba945BkdA29Bk3eEdr7yAlq7Acva9A93C99Bp5tNEvVHkAIE9GD4Kp5p3dn
     33230303ByAvJ3xAq5AgB9aB12pj983h329123Cp43Bk5Bk745454517535t1"),
   ("2.0",
    "CA7f3bA4EAbAy3vfp9423j752HCmACaBXElKXaFFBt0EIZt0EIZt0EIZt0EIZt0EIZt0EIZt0EIZt0EIZt0EIZt0EIZt0EIZt0EIZt0EIZtEIZw"),
   ("2.1", "QVoDRCy"),
   ("3.0",
    "AAx2Ap65gFj3Bql3Dv7A2Fg6222AooCooBd052E50HoK51Eh0auBd33c3s7pBzAbCDr03g7m37255694236A11TqBeAb1e313d4Bpw33303572doW
     h53Ap232552325A12325t2325523255353l3t232553A13hdqAzBbpQgjr7B7GzBj78A9d38dBehA4DByAd4Eb1Bt0Dr0D0Er7NyFq3sGp0Yf6AuD
     t0V5G2BZ9o3BfpEwAhaCd16SnmAFhFZsARZdAFb7g5e3a312AUEwBQ31"),
   ("3.1",
    "BD90EFQhuBT1t32ppJ3A05A0DGK1FslA17DyADdBb3Ax30450523a232303Ar3256353q32332753Ic9H09AcUVxASPdARJbO0BGIOiApBm"),
   ("3.2",
    "AD8PsA3bEt0AkH70C705050BreSh0QuEAv0CGrb35nljipb3130DUid38f3qCh0Bt5DldIdaMhcFwApAeOtiHf8Dx6A90E1a58LdcE1q9eN9N6BVf
     1Dv0h0E8MdeDjdDjdBJGp0wo6ATRtAlAXq7eBz0BgM30"),
   ("4.0",
    "ADaA11Fn0CjfDh6b1Hf3ABp2j7Cl1Hb0uBj1An1X8J8Cq2GkDp1qCqCaG76Jr0FB6A18Nlr7a9a87A453EzuAPpByAOb0LsAJn0PsOd0Fh6t0BJ5c
     CVf0BqBf0Dd2Ib2Ej0AqNB9AqCRFyD30Xfa3o3h303d5cAxCdb19A777AF1s2Gh0B5B658AUh443A63064DFWlBdT4BMNOxFm"),
   ("4.1",
    "AEj9Oh3Hv2Mp0IgAx1CqA0C94MfsACaDgAA2BmBCn0Pf02NsCiCiB6AqAqAquB6Ab0AroCExA4dod890Atq50ATxBeAJj035Br3An2ByDguAIt9AE
     sEn0A19beO15ATn4M5A93A9AvBxtA7lAgixlj535353535353535Avm90AYpeIoBGRfkCYdlLzA6ARZ1BwASp8ARtB1ACny9cCIp230b6313p9197
     h7DEEjAwBJ50"),
   ("5.0",
    "AF5cPn1RqBd4x2I8ABrAlUd030AV50r0GQvB29A7AFf5Bv0AOl2E70ByAGbaAMoOd2ATr5b2Qlbf2BOAz2b0OxAiAZTxoaLMdXdH3Bpr2CQQtgBIt
     0"),
   ("5.1",
    "AVx250DuJ6GteLl3n3At3PtgAAn0LcAyKgAn0F0F0Ah0h0A56JicAn0p475AAb0Ee71Daa4f194AhAq90DJcANbA57aCxAi7d7AdRfqJ32E14SsGq
     E8Bz2BT8A7872NoAr2AS339A373Ol13194SpuAd25hAPgI1iBHB96BVhHaA5u5ghqGb35BxF53G5AvjaB5BamHxAhjc5852ASUd1AVjaBxA8G9r7A
     bCKroaDEI6PVlA69Bq"),
   ("5.2",
    "BU50ANlA85dJqDacAz0G4CE72Jr2Jh3Ct3Dl4ABgAI17AE5AwJ10BkCvAp3r59d8dcADdxNsALp1Hf1C0AGoALj0An1983h29mDuBDr3Ogr0Ez5Qq
     BExaBGVp6BSdAaW5BeQd8I9qElr7B43990G5q9AtAd3LhA858WWpl9AbRUr1GNlk37Jd0R1uG5Ag7r5pb6G5AzACrtABjAsQBdACpCYGf9bt4m246
     73geAe304l24F6vwt7CTV7DK7"),
   ("6.0",
    "BU90MsCgZpq4L70A2d0Aj3AB54X2wA2AEv2D30AWx0DO7Aeh2AB8AJx6AkASb9ANkA232Am90AkAy291j0Bx1Acst0CB0sBH11BKTz0Pn030t8DgA
     Q145454j535ARA3eKAxB49sAUWdOrALDf0AII1d5c5d3dDg392303131b63538d7250389038D7o30Bn7A70Ipvv43Aw7ipz33A7fvAp23E0327Ao
     A1mH733e312223134522523a99BpAwC9C6CZWtF4"),
   ("6.1",
    "CA2FgAK239C3pAAmBCv0AA2aBn1EUr1p4N96Bf2EX02BU50BuaC50K98BJC4CPn6AyMh0A8Db0AO9lAQHn0HItAid0CVhnf8dAf3cCdAzf8BN5Aih
     8AVFlAvnA9xfBQCd23p3024383222c8223130242222302523532322383fb1333fBx0AI50BBh2Jgw62226d08308"),
   ("6.2", "QWg"),
   ("6.3", "CHwNIv2"),
   ("7.0",
    "AWqWl6E70FkAK2n4D8FoeAIiBuD8G2Lp8DX36ADh0VbdAEn0M7dAMf1ASp5APyBI51lo5u5w7a36AHd5BMUf4Mpan150CuAA5tFz2ItAa90ASFz5A
     Uv0A2QrqAyBpA5UnA2hAemH1Hljkl6MtAph7YtuAtA19aGngf2p5BPeKlA1Dsoding3A5FdAlb8f136505k353033575051ib55573NvAyh8I9Ag5
     gC1Avn8AFdB9oXxAjDPdA4K9aaALDnt3890Eds54lAwl8353jbhAQZ1Bxbb77f856WRpEf5eDHgAtkA70AClaiCwA9aB2b2baz5Cy2J490Cj095An
     g3A33BcCx0rAaCx8xb72GtBbBfa9Aih8dA2hs"),
   ("8.0",
    "DSr0BkACmSkNgCOm54FYcKb0EQl2BKIv7CRgMcAx4R10AGx2pB6ASBd0EV1h30b3Jh05e5A8AIlAdrAdf4BP32t3Hx52323d39DsDeAI7iP5o7d9e
     FSmLtEePU5P5BXIb9CHnR2v33dMJb1Dd0Df3B16N6D73Mj0GqAEz7Er3CaCZCjFD0"),
   ("9.0",
    "DSx6A9dAYeKg9135Ab1HEr7TkCGb2EP10BNJqOgAVNn0ARjy9yGFkXzBg22ABlbCAb73A73clr7u5k3cASLqArFN3A3TxATMn53f553033DUnB1b8
     90DM3gGwAT4BaPp0Av1ADd436g5a3a9dB5b"),
   ("10.0",
    "DO59Vb0N14ABgC90HOoN52AMeAT6DG8AHt3AO4BHMrjBBGp1LLhAyhAe5l33AGn5303A663037h8ASCqAIB1GvDjJyAHQl4BJz0Ax0ABvaA2h630A
     eA1bB54C5lDLJbGYj"),
   ("11.0",
    "BXgB6EoAC71KqPkFmV2G2FMyBF7A551HE11A9n9dAFn3ANwBHNv3DF6h0R10BADh0A0ALnA2h8Y9A2hA4TmFl1AAsP4ALuLrAmAGuAM94303z3034
     f8Q9nAQIjBhMV53ANYpiG15MQ5AuBKoCDaL72Tp1Al352632Ad9r8f0B1nEdc"),
   ("12.0",
    "FUaAC844348ef04qGTmHBkByAFuBNJt453AYj0BBXxlBJoAGcAOb65A859Hv0BVdAcqKA57AFGt48Bn7E10MD54VP11z2YZxA77c5890ThAkaCKiA
     ZrAnBGgBXwB0LraP31BmBqiBb470l47651BpBaAl291b1r4"),
   ("12.1", "AAWa"),
   ("13.0",
    "DTd8AJaWwFwGFb0IEgALp1AVh3OGp8ARXxbDFt2Bd0ByASz2AUCsGAbA43150N5qU2Gh0AJ4b0BMp5456303s305aj8CL4AQVmn0NT3MdBd7BBRh1
     E71CeBUd0Az0X70E0Em90Bd0d1AmIct2vhf5j1r5BbD13AhB38COL35AVSpEG5"),
   ("14.0",
    "CHyAG1t30d6A6A19AViAsG2ENueiMaALbcFyBp0AIaAMeFFkBmAAr9BJCz1DF90t0233Ad1ASUuU7eG2Bl0DAt93d3530393d3530Y343A437DEno
     Lt4D8CFsGh5AVjeKJ1BpAEYvB538AKUh23530P12PHrA85ljC6ADj0GD3tAVztBUv532303dHCh1O4UsDkIp0Bh2l2h1z1d6h5COZv0HXb2"),
   ("15.0", "GB6ZcEJCh1AT71DTd8BDdf3A37qKJajrBPGsAwRG9iFS74NjAoAuBHhA4ITcHf193DyAK31v0B11n12t0l0ot0CXYcAXIpDLe"),
   ("15.1", "ZFh2AAiNQU5Q8"),
   ("16.0",
    "DR6JF50BmNr0DD91GM90BLLr1p1AYIbAeCYtA07rh0Q11C2BL78243A03824323830h0AOniBQ5wt8AV0KLzDFxOVrAkFO1AkQFaAHL1FwdL2LPpA
     58JEx890YaaBkeA64iLjz")]

/-- The other name of a version: `16.0` is also called `v160`. -/
def shortName (version : String) : String :=
  String.ofList ('v' :: version.toList.filter (· ≠ '.'))

/-- The code points that were assigned in a version or before it. -/
def codePoints? (name : String) : Option CodePoints :=
  let (before, rest) := table.span fun v => v.1 != name && shortName v.1 != name
  match rest with
  | [] => none
  | v :: _ => some (CodePoints.unions ((v :: before).map fun v => CodePoints.parseGaps v.2))

end Age

end SqlCode

import SqlCode.Text.CodePoints

/-!
# Scripts

The writing system that a code point belongs to. Code points that several scripts share are
`common`, and marks that take the script of their base are `inherited`.
-/

namespace SqlCode

namespace Script

/-- Every script: its names in small letters without separators, the first one in full, and its code
points. -/
def table : List (List String × String) := CodePoints.rows
  "adlam adlm=JGLpB29890;ahom=EVP1p5d9l;anatolianhieroglyphs hluw=FUF1P5;arabic arab=CGd3343c313u38n
     o3By3wDhAaMdt30bB13rEBN9C5xJ15B65AgeAteF933CpHJvtCr1C32DQYl23p3024383222c8223130242222302523532
     322383fb1333fBx0;armenian armn=BUvA05Ac51EDGr3;avestan avst=EPAdAg75;balinese bali=NT1B33Ac;
     bamum bamu=CMCtBeDAOdOr;bassavah bass=GPL1s54;batak batk=ODpAeh2;
     bengali beng=EE5236505k35272575052g90335n;bhaiksuki bhks=EYI573A73clr;
     bopomofo bopo=AOh0YEnA5F9u;brahmi brah=ERThB49yi;braille brai=UVxG2;buginese bugi=NEtq50;
     buhid buhd=LRpi;canadianaboriginal cans=JXhQqAE5AwEJYhe;carian cari=EKL9Ab;
     caucasianalbanian aghb=ELVpAem;chakma cakm=ESHpAf3g;cham=CNYtAhjc5852;
     cherokee cher=JS5Bc54CDUxB6;chorasmian chrs=ERP1q;common zyyy=1ArAh4AhA93d33AaAqXzA1b35iFgic2AI
     ecs6AsHoABoG70BPyVj2P4CFf1Cz0Kb02BPaqf234314APza5Bd39793dzvCjA031543p3fBb19RgA99A7YqN9Qe5u3BvAB
     hBkVdj23nv692E306E10H7eAtA0iBpAqArB7BmDxDmNB9AqAVQtwEp1I78MkHwUyt0ARSp0Kl8A9x3h32H63uAh4Ah9kBj0
     Cl535l3Nd19A777DhbBvA7LppCWN92HJhFwdL2HpC6CdFslA15Ao7fh0fs9AnKvipipBdjnGjBb3Ax30450523a2353Ar32
     56353q32332753Ie5H25AcKDrAuD9AnAM9A69Bqpd5d3d3zlDsC5o30rA697f0t4HlAAa9f7b7C99Blda8va9Aih8dA2hs5
     a90ChIepc5b78bAifd59d7fD13BsBLROyApBm;coptic copt qaac=BC9cVDxC6b5;
     cuneiform xsux=FAN1YkEpC133nEe;cypriot cprt=ENJp443A63064;cyprominoan cpmn=FJAdBp;
     cyrillic cyrl=BDxCn5DnLSl9HwD8HYbuBMT9BmAUW90DSP9AoAu;deseret dsrt=ELEtB6;
     devanagari deva=DX1B79d5oCIDpuBJId8;divesakuru diak=EWRh5456303s305aj8;dogra dogr=EWD9Am;
     duployan dupl=IHVpBxbb77f852;egyptianhieroglyphs egyp=FJGlADslDFx;elbasan elba=ELT1A2;
     elymaic elym=ERRpl;ethiopic ethi=IV1Az32552325A3325v32552325d3Aj325At5u7oNDdlj535353535353535BP
     Kp45454j535FQF3532303d;garay gara=EQGdA07rh0;georgian geor=IBhA02a5A532FHhA551HW5A02a;
     glagolitic glag=XAtBmIDGl53f553033;gothic goth=EKT9p;
     grantha gran=ETK5236505k3530335750514cb55573;
     greek grek=AVx231522823123i3ApteMSp3Bt393DoQtk545A054562223t5Af3d3c543h5137PeBWP4ATY1B5yDIYjAw;
     gujarati gujr=ESf137313k3530335831314v25af5;gunjalagondi gong=EZBp4303z3034f8;
     gurmukhi guru=ELb134905k3530303043390516f22ff;gurungkhema gukh=GKBhAk;han hani=YKdo3BfpEwBm2Af7
     t2BAlGA2ClVK2AVQtJ45BwBKZh0p0BZTtASPmAtDKcdF45FD0tGYjvQ8EG1O0CEpEG5bDLe;
     hangul hang=IGtG2PM90NbBkFbtCntBLZrrAIrKXapl9AbUQtt74545451;hanifirohingya rohg=EQCtA2h8;
     hanunoo hano=LPxj;hatran hatr=ENW5h30b3;hebrew hebr=CA7Ahhp94EDBpo332303038;
     hiragana hira=ZJbBcd1HARjGxA0An1AIIu;imperialaramaic armi=ENN9k37;inherited zinh qaai=APpC2Of0Y
     59AgANx2ILvtABj13b358c70K1AqAC50JtvHHj2Ez0DHI7excBB6LkHXkCXRhA85lAD91z655Ap2BMPGpFm;
     inscriptionalpahlavi phli=EPFphb6;inscriptionalparthian prti=EPDxk56;javanese java=CNRpB45890;
     kaithi kthi=ESAlAtk;kannada knda=FUtb313l3833573132f0d0325831;
     katakana kana=ZOnBg51MdeKlA93BeDGP583A7CRKp235302Oz1Bst2;kawi=EZYtf3A37r;kayahli kali=CNKlA82;
     kharoshthi khar=EOM5230b6313r5198f7;khitansmallscript kits=GSF8NUjM0Ba;
     khmer khmr=LV9Bk58d8AA1u;khojki khoj=ESVxg3A9;khudawadi sind=ETFpAlb8;kiratrai krai=GQTpAk;
     lao laoo=GXb02333m23l532353852;latin latn=CnodoBmubl3t3LfB73NGbA0dAbb2bb3AwCnG2TiqxbGv0cAizA3EX
     7uBOB5Bs7At50236A7cASdA53732AQMx5BFdodoDKv43A437DMSntd4;lepcha lepc=OH9Ai7d71;
     limbu limb=MQlt3a9a87a;lineara lina=EMH9Hljkl6;linearb linb=EIZxa3o3h303d5cAxCd;
     lisu=CLD1AaBOBw;lycian lyci=EKJhr;lydian lydi=ENZpoa;mahajani mahj=ESM5A1;makasar maka=EZX1n;
     malayalam mlym=GBxb313Ad31349e5o;mandaic mand=DMdq4;manichaean mani=EOWtA19a;
     marchen marc=EYOdu5k3c;masaramgondi gonm=EYWd5303A663037h8;medefaidrin medf=GRHxBh;
     meeteimayek mtei=COL9lK7A858;mendekikakui mend=JFXhEf5e;meroiticcursive merc=EOGtm9i5A8;
     meroitichieroglyphs mero=EOF1u;miao plrd=GRSlB19Ajff;modi=EVAtAvn8;
     mongolian mong=MCd043idBffA5EHTbb;mro mroo=GPD1t3890;multani mult=ETD152323d39;
     myanmar mymr=HSlDeCEUltEfuBGFhi;nabataean nbat=ENQtth7;nagmundari nagm=JEE5A4;
     nandinagari nand=EXAd65A859;newa=ETYdBi33;newtailue talu=MXpA69od970;nko nkoo=DF9Al51;
     nushu nshu=GSF2AIVdJy;nyiakengpuachuehmong hmnp=JCBxA77c5890;ogham ogam=LH1r;
     olchiki olck=OLpAa;oldhungarian hung=EPVpAdrAdf4;olditalic ital=EKQlyj1;
     oldnortharabian narb=EOT9u;oldpermic perm=EKV1A5;oldpersian xpeo=EKZhy9c;
     oldsogdian sogo=ERF9A2;oldsoutharabian sarb=EORhu;oldturkic orkh=EPOlAz;olduyghur ougr=ERLho;
     olonal onao=JESdA58;oriya orya=EZj136505k353033575051f190335g;osage osge=ELOly9y;
     osmanya osma=ELLxs58;pahawhhmong hmng=GPNpAwl8353jbh;palmyrene palm=ENP1u;
     paucinhau pauc=EXQdAj;phagspa phag=CMZxAi;phoenician phnx=ENXxq6;psalterpahlavi phlp=EPHhgf2p5;
     rejang rjng=CNN9ym;runic runr=LItB179;samaritan samr=DItA85d;saurashtra saur=CNDhAwha;
     sharada shrd=ESOtBm;shavian shaw=ELJ9Aa;siddham sidd=EUTpAg5A0;signwriting sgnw=IXDxR2v33d;
     sinhala sinh=GJ313g7m37255694236d851ELDpi;sogdian sogd=ERHxA4;sorasompeng sora=ESF1nf8;
     soyombo soyo=EXK5B9;sundanese sund=OA5AqN96;sunuwar sunu=EYElwt8;sylotinagri sylo=CMWdA7;
     syriac syrc=CUlc3Am51O59;tagalog tglg=LO5ki;tagbanwa tagb=LThb3130;taile tale=MV1s53;
     taitham lana=NGlAp3r59d8dc;taiviet tavt=COFxAtAd3;takri takr=EVHxAkd8;
     tamil taml=FGp03471327023070717a9371324ctjETV3Acq;tangsa tnsa=GPFpB538;
     tangut tang=GSF0ArFNehUaABh7;telugu telu=FNpb313l3e573132f03145258f7;thaana thaa=DBpAc;
     thai=GQ7Akbq;tibetan tibt=HEdAy3y9A13y3d3590;tifinagh tfng=XRpAif0s;tirhuta tirh=EUFhAyh8;
     todhri todr=EMDpAe;toto=JCY5t;tulutigalari tutg=ETR98243A03824323830h0;ugaritic ugar=EKXps2;
     vai vaii=CLFpHa;vithkuqi vith=ELZ993d3530393d3530;wancho wcho=JDAtAka;warangciti wara=EWM5B9o;
     yezidi yezi=EQY5A43150;yi yiii=CIMlAFb7Ah;zanabazarsquare zanb=EXFpAy"

/-- The names of the script that has a name. -/
def names? (name : String) : Option (List String) :=
  (table.find? fun s => s.1.contains name).map (·.1)

def codePoints? (name : String) : Option CodePoints :=
  (table.find? fun s => s.1.contains name).map fun s => CodePoints.parseGaps s.2

end Script

end SqlCode

import EventStream.HostName.Letters
/-!
What characters stand for in the name of a host, as far as it matters there: plain characters, and
marks that go on top of others. All else can stand for itself.
-/
namespace EventStream.HostName

/-- Consecutive characters that stand for consecutive ones, or one that stands for several. -/
structure Folding where
  first : Nat
  count : Nat
  text : List Char

namespace Folding

def textOf? (f : Folding) (c : Char) : Option (List Char) :=
  if f.first ≤ c.toNat ∧ c.toNat < f.first + f.count then
    match f.text with
    | [d] => some [Char.ofNat (d.toNat + (c.toNat - f.first))]
    | text => some text
  else none

/-- A character, a plus and how many follow one another if they are several, an equals sign, and
what the first stands for. -/
def ofWord? : List Char → Option Folding
  | c :: '=' :: text => some ⟨c.toNat, 1, text⟩
  | c :: '+' :: r =>
    some ⟨c.toNat, ofDigits (r.takeWhile (· ≠ '=')), (r.dropWhile (· ≠ '=')).drop 1⟩
  | _ => none

def all : List Folding :=
  (words "
ª=a ²+2=2 ¹=1 º=o ¼=1⁄4 ½=1⁄2 ¾=3⁄4 İ=i\u0307 Ĳ=ij ĳ=ij Ŀ=l· ŀ=l· ŉ=ʼn ſ=s Ǆ=dž ǅ=dž ǆ=dž Ǉ=lj
ǈ=lj ǉ=lj Ǌ=nj ǋ=nj ǌ=nj Ǳ=dz ǲ=dz ǳ=dz ʰ=h ʲ=j ʳ=r ʷ=w ʸ=y ˡ=l ˢ=s ˣ=x \u0340+2=\u0300
\u0343=\u0313 \u0344=\u0308\u0301 \u0345=ι ;=; ำ=\u0e4dา ຳ=\u0ecdາ \u0f73=\u0f71\u0f72
\u0f75=\u0f71\u0f74 \u0f76=\u0fb2\u0f80 \u0f77=\u0fb2\u0f71\u0f80 \u0f78=\u0fb3\u0f80
\u0f79=\u0fb3\u0f71\u0f80 \u0f81=\u0f71\u0f80 \u0f93=\u0f92\u0fb7 \u0f9d=\u0f9c\u0fb7
\u0fa2=\u0fa1\u0fb7 \u0fa7=\u0fa6\u0fb7 \u0fac=\u0fab\u0fb7 \u0fb9=\u0f90\u0fb5 ᴬ=a ᴮ=b ᴰ+2=d
ᴳ+8=g ᴼ=o ᴾ=p ᴿ=r ᵀ+2=t ᵂ=w ᵃ=a ᵇ=b ᵈ+2=d ᵍ=g ᵏ=k ᵐ=m ᵒ=o ᵖ=p ᵗ+2=t ᵛ=v ᵢ=i ᵣ=r ᵤ+2=u ᶜ=c ᶠ=f
ᶻ=z ẚ=aʾ ‼=!! ⁰=0 ⁱ=i ⁴+6=4 ⁺=+ ⁼== ⁽+2=( ⁿ=n ₀+10=0 ₊=+ ₌== ₍+2=( ₐ=a ₑ=e ₒ=o ₓ=x ₕ=h ₖ+4=k ₚ=p
ₛ+2=s ₨=rs ℂ=c ℃=°c ℉=°f ℊ+2=g ℌ=h ℍ=h ℎ=h ℐ=i ℑ=i ℒ=l ℓ=l ℕ=n №=no ℙ+3=p ℜ=r ℝ=r ℠=sm ℡=tel
™=tm ℤ=z ℨ=z K=k ℬ+2=b ℯ=e ℰ+2=e ℳ=m ℴ=o ℹ=i ℻=fax ⅅ=d ⅆ+2=d ⅈ+2=i ⅐=1⁄7 ⅑=1⁄9 ⅒=1⁄10 ⅓=1⁄3
⅔=2⁄3 ⅕=1⁄5 ⅖=2⁄5 ⅗=3⁄5 ⅘=4⁄5 ⅙=1⁄6 ⅚=5⁄6 ⅛=1⁄8 ⅜=3⁄8 ⅝=5⁄8 ⅞=7⁄8 ⅟=1⁄ Ⅰ=i Ⅱ=ii Ⅲ=iii Ⅳ=iv Ⅴ=v
Ⅵ=vi Ⅶ=vii Ⅷ=viii Ⅸ=ix Ⅹ=x Ⅺ=xi Ⅻ=xii Ⅼ=l Ⅽ+2=c Ⅿ=m ⅰ=i ⅱ=ii ⅲ=iii ⅳ=iv ⅴ=v ⅵ=vi ⅶ=vii ⅷ=viii
ⅸ=ix ⅹ=x ⅺ=xi ⅻ=xii ⅼ=l ⅽ+2=c ⅿ=m ↉=0⁄3 ①+9=1 ⑩=10 ⑪=11 ⑫=12 ⑬=13 ⑭=14 ⑮=15 ⑯=16 ⑰=17 ⑱=18 ⑲=19
⑳=20 ⑴=(1) ⑵=(2) ⑶=(3) ⑷=(4) ⑸=(5) ⑹=(6) ⑺=(7) ⑻=(8) ⑼=(9) ⑽=(10) ⑾=(11) ⑿=(12) ⒀=(13) ⒁=(14)
⒂=(15) ⒃=(16) ⒄=(17) ⒅=(18) ⒆=(19) ⒇=(20) ⒜=(a) ⒝=(b) ⒞=(c) ⒟=(d) ⒠=(e) ⒡=(f) ⒢=(g) ⒣=(h) ⒤=(i)
⒥=(j) ⒦=(k) ⒧=(l) ⒨=(m) ⒩=(n) ⒪=(o) ⒫=(p) ⒬=(q) ⒭=(r) ⒮=(s) ⒯=(t) ⒰=(u) ⒱=(v) ⒲=(w) ⒳=(x) ⒴=(y)
⒵=(z) Ⓐ+26=a ⓐ+26=a ⓪=0 ⩵=== ⩶==== ⱼ=j ⱽ=v 。=. ㈀=(ᄀ) ㈁=(ᄂ) ㈂=(ᄃ) ㈃=(ᄅ) ㈄=(ᄆ) ㈅=(ᄇ) ㈆=(ᄉ) ㈇=(ᄋ)
㈈=(ᄌ) ㈉=(ᄎ) ㈊=(ᄏ) ㈋=(ᄐ) ㈌=(ᄑ) ㈍=(ᄒ) ㈎=(가) ㈏=(나) ㈐=(다) ㈑=(라) ㈒=(마) ㈓=(바) ㈔=(사) ㈕=(아) ㈖=(자) ㈗=(차)
㈘=(카) ㈙=(타) ㈚=(파) ㈛=(하) ㈜=(주) ㈝=(오전) ㈞=(오후) ㈠=(一) ㈡=(二) ㈢=(三) ㈣=(四) ㈤=(五) ㈥=(六) ㈦=(七) ㈧=(八)
㈨=(九) ㈩=(十) ㈪=(月) ㈫=(火) ㈬=(水) ㈭=(木) ㈮=(金) ㈯=(土) ㈰=(日) ㈱=(株) ㈲=(有) ㈳=(社) ㈴=(名) ㈵=(特) ㈶=(財) ㈷=(祝)
㈸=(労) ㈹=(代) ㈺=(呼) ㈻=(学) ㈼=(監) ㈽=(企) ㈾=(資) ㈿=(協) ㉀=(祭) ㉁=(休) ㉂=(自) ㉃=(至) ㉐=pte ㉑=21 ㉒=22 ㉓=23
㉔=24 ㉕=25 ㉖=26 ㉗=27 ㉘=28 ㉙=29 ㉚=30 ㉛=31 ㉜=32 ㉝=33 ㉞=34 ㉟=35 ㊱=36 ㊲=37 ㊳=38 ㊴=39 ㊵=40 ㊶=41 ㊷=42
㊸=43 ㊹=44 ㊺=45 ㊻=46 ㊼=47 ㊽=48 ㊾=49 ㊿=50 ㋀=1月 ㋁=2月 ㋂=3月 ㋃=4月 ㋄=5月 ㋅=6月 ㋆=7月 ㋇=8月 ㋈=9月 ㋉=10月 ㋊=11月
㋋=12月 ㋌=hg ㋍=erg ㋎=ev ㋏=ltd ㍘=0点 ㍙=1点 ㍚=2点 ㍛=3点 ㍜=4点 ㍝=5点 ㍞=6点 ㍟=7点 ㍠=8点 ㍡=9点 ㍢=10点 ㍣=11点 ㍤=12点
㍥=13点 ㍦=14点 ㍧=15点 ㍨=16点 ㍩=17点 ㍪=18点 ㍫=19点 ㍬=20点 ㍭=21点 ㍮=22点 ㍯=23点 ㍰=24点 ㍱=hpa ㍲=da ㍳=au ㍴=bar
㍵=ov ㍶=pc ㍷=dm ㍸=dm2 ㍹=dm3 ㍺=iu ㎀=pa ㎁=na ㎂=μa ㎃=ma ㎄=ka ㎅=kb ㎆=mb ㎇=gb ㎈=cal ㎉=kcal ㎊=pf ㎋=nf
㎌=μf ㎍=μg ㎎=mg ㎏=kg ㎐=hz ㎑=khz ㎒=mhz ㎓=ghz ㎔=thz ㎕=μl ㎖=ml ㎗=dl ㎘=kl ㎙=fm ㎚=nm ㎛=μm ㎜=mm ㎝=cm
㎞=km ㎟=mm2 ㎠=cm2 ㎡=m2 ㎢=km2 ㎣=mm3 ㎤=cm3 ㎥=m3 ㎦=km3 ㎧=m∕s ㎨=m∕s2 ㎩=pa ㎪=kpa ㎫=mpa ㎬=gpa ㎭=rad
㎮=rad∕s ㎯=rad∕s2 ㎰=ps ㎱=ns ㎲=μs ㎳=ms ㎴=pv ㎵=nv ㎶=μv ㎷=mv ㎸=kv ㎹=mv ㎺=pw ㎻=nw ㎼=μw ㎽=mw ㎾=kw ㎿=mw
㏀=kω ㏁=mω ㏃=bq ㏄=cc ㏅=cd ㏆=c∕kg ㏈=db ㏉=gy ㏊=ha ㏋=hp ㏌=in ㏍=kk ㏎=km ㏏=kt ㏐=lm ㏑=ln ㏒=log ㏓=lx
㏔=mb ㏕=mil ㏖=mol ㏗=ph ㏙=ppm ㏚=pr ㏛=sr ㏜=sv ㏝=wb ㏞=v∕m ㏟=a∕m ㏠=1日 ㏡=2日 ㏢=3日 ㏣=4日 ㏤=5日 ㏥=6日 ㏦=7日
㏧=8日 ㏨=9日 ㏩=10日 ㏪=11日 ㏫=12日 ㏬=13日 ㏭=14日 ㏮=15日 ㏯=16日 ㏰=17日 ㏱=18日 ㏲=19日 ㏳=20日 ㏴=21日 ㏵=22日 ㏶=23日
㏷=24日 ㏸=25日 ㏹=26日 ㏺=27日 ㏻=28日 ㏼=29日 ㏽=30日 ㏾=31日 ㏿=gal ꟱=s ꟲ=c ꟳ=f ꟴ=q ﬀ=ff ﬁ=fi ﬂ=fl ﬃ=ffi ﬄ=ffl
ﬅ=st ﬆ=st ﬩=+ ︐=, ︔=; ︕=! ︳=_ ︴=_ ︵+2=( ﹍=_ ﹎=_ ﹏=_ ﹐=, ﹔=; ﹗=! ﹙+2=( ﹠=& ﹡+2=* ﹣=- ﹦== ﹩=$ ！=!
＄=$ ＆+9=& ０+10=0 ；=; ＝== Ａ+26=a ＿=_ ａ+26=a ～=~ ｡=. ﾞ+2=\u3099 𐞥=q 𜳖+26=a 𜳰+10=0 𝐀+26=a 𝐚+26=a
𝐴+26=a 𝑎+7=a 𝑖+18=i 𝑨+26=a 𝒂+26=a 𝒜=a 𝒞+2=c 𝒢=g 𝒥+2=j 𝒩+4=n 𝒮+8=s 𝒶+4=a 𝒻=f 𝒽+7=h 𝓅+11=p 𝓐+26=a
𝓪+26=a 𝔄+2=a 𝔇+4=d 𝔍+8=j 𝔖+7=s 𝔞+26=a 𝔸+2=a 𝔻+4=d 𝕀+5=i 𝕆=o 𝕊+7=s 𝕒+26=a 𝕬+26=a 𝖆+26=a 𝖠+26=a
𝖺+26=a 𝗔+26=a 𝗮+26=a 𝘈+26=a 𝘢+26=a 𝘼+26=a 𝙖+26=a 𝙰+26=a 𝚊+26=a 𝟎+10=0 𝟘+10=0 𝟢+10=0 𝟬+10=0
𝟶+10=0 🄁=0, 🄂=1, 🄃=2, 🄄=3, 🄅=4, 🄆=5, 🄇=6, 🄈=7, 🄉=8, 🄊=9, 🄐=(a) 🄑=(b) 🄒=(c) 🄓=(d) 🄔=(e) 🄕=(f)
🄖=(g) 🄗=(h) 🄘=(i) 🄙=(j) 🄚=(k) 🄛=(l) 🄜=(m) 🄝=(n) 🄞=(o) 🄟=(p) 🄠=(q) 🄡=(r) 🄢=(s) 🄣=(t) 🄤=(u) 🄥=(v)
🄦=(w) 🄧=(x) 🄨=(y) 🄩=(z) 🄪=〔s〕 🄫=c 🄬=r 🄭=cd 🄮=wz 🄰+26=a 🅊=hv 🅋=mv 🅌=sd 🅍=ss 🅎=ppv 🅏=wc 🅪=mc 🅫=md
🅬=mr 🆐=dj 🉀=〔本〕 🉁=〔三〕 🉂=〔二〕 🉃=〔安〕 🉄=〔点〕 🉅=〔打〕 🉆=〔盗〕 🉇=〔勝〕 🉈=〔敗〕 🯰+10=0".toList).filterMap ofWord?

end Folding

/-- What a character stands for, if a name may have it. -/
def fold? (c : Char) : Option (List Char) :=
  if c.toNat < 0x80 then (if isPlain c then some [c.toLower] else none)
  else if refused.contains c then none
  else if ignored.contains c then some []
  else some ((Folding.all.findSome? (·.textOf? c)).getD [c])

end EventStream.HostName

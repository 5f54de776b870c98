/-!
# Marks and base letters

Data of Unicode 14: the characters that combine with the one before them, and the base characters
that are left of a composed character when its marks are taken away. Hangul syllables are composed
by arithmetic and are not listed.
-/

namespace BlockScript.Text

/-- Ranges of the characters with a non-zero combining class. -/
def markRanges : List (Nat × Nat) := [
  (0x300, 0x34e), (0x350, 0x36f), (0x483, 0x487), (0x591, 0x5bd), (0x5bf, 0x5bf),
  (0x5c1, 0x5c2), (0x5c4, 0x5c5), (0x5c7, 0x5c7), (0x610, 0x61a), (0x64b, 0x65f),
  (0x670, 0x670), (0x6d6, 0x6dc), (0x6df, 0x6e4), (0x6e7, 0x6e8), (0x6ea, 0x6ed),
  (0x711, 0x711), (0x730, 0x74a), (0x7eb, 0x7f3), (0x7fd, 0x7fd), (0x816, 0x819),
  (0x81b, 0x823), (0x825, 0x827), (0x829, 0x82d), (0x859, 0x85b), (0x898, 0x89f),
  (0x8ca, 0x8e1), (0x8e3, 0x8ff), (0x93c, 0x93c), (0x94d, 0x94d), (0x951, 0x954),
  (0x9bc, 0x9bc), (0x9cd, 0x9cd), (0x9fe, 0x9fe), (0xa3c, 0xa3c), (0xa4d, 0xa4d),
  (0xabc, 0xabc), (0xacd, 0xacd), (0xb3c, 0xb3c), (0xb4d, 0xb4d), (0xbcd, 0xbcd),
  (0xc3c, 0xc3c), (0xc4d, 0xc4d), (0xc55, 0xc56), (0xcbc, 0xcbc), (0xccd, 0xccd),
  (0xd3b, 0xd3c), (0xd4d, 0xd4d), (0xdca, 0xdca), (0xe38, 0xe3a), (0xe48, 0xe4b),
  (0xeb8, 0xeba), (0xec8, 0xecb), (0xf18, 0xf19), (0xf35, 0xf35), (0xf37, 0xf37),
  (0xf39, 0xf39), (0xf71, 0xf72), (0xf74, 0xf74), (0xf7a, 0xf7d), (0xf80, 0xf80),
  (0xf82, 0xf84), (0xf86, 0xf87), (0xfc6, 0xfc6), (0x1037, 0x1037), (0x1039, 0x103a),
  (0x108d, 0x108d), (0x135d, 0x135f), (0x1714, 0x1715), (0x1734, 0x1734), (0x17d2, 0x17d2),
  (0x17dd, 0x17dd), (0x18a9, 0x18a9), (0x1939, 0x193b), (0x1a17, 0x1a18), (0x1a60, 0x1a60),
  (0x1a75, 0x1a7c), (0x1a7f, 0x1a7f), (0x1ab0, 0x1abd), (0x1abf, 0x1ace), (0x1b34, 0x1b34),
  (0x1b44, 0x1b44), (0x1b6b, 0x1b73), (0x1baa, 0x1bab), (0x1be6, 0x1be6), (0x1bf2, 0x1bf3),
  (0x1c37, 0x1c37), (0x1cd0, 0x1cd2), (0x1cd4, 0x1ce0), (0x1ce2, 0x1ce8), (0x1ced, 0x1ced),
  (0x1cf4, 0x1cf4), (0x1cf8, 0x1cf9), (0x1dc0, 0x1dff), (0x20d0, 0x20dc), (0x20e1, 0x20e1),
  (0x20e5, 0x20f0), (0x2cef, 0x2cf1), (0x2d7f, 0x2d7f), (0x2de0, 0x2dff), (0x302a, 0x302f),
  (0x3099, 0x309a), (0xa66f, 0xa66f), (0xa674, 0xa67d), (0xa69e, 0xa69f), (0xa6f0, 0xa6f1),
  (0xa806, 0xa806), (0xa82c, 0xa82c), (0xa8c4, 0xa8c4), (0xa8e0, 0xa8f1), (0xa92b, 0xa92d),
  (0xa953, 0xa953), (0xa9b3, 0xa9b3), (0xa9c0, 0xa9c0), (0xaab0, 0xaab0), (0xaab2, 0xaab4),
  (0xaab7, 0xaab8), (0xaabe, 0xaabf), (0xaac1, 0xaac1), (0xaaf6, 0xaaf6), (0xabed, 0xabed),
  (0xfb1e, 0xfb1e), (0xfe20, 0xfe2f), (0x101fd, 0x101fd), (0x102e0, 0x102e0),
  (0x10376, 0x1037a), (0x10a0d, 0x10a0d), (0x10a0f, 0x10a0f), (0x10a38, 0x10a3a),
  (0x10a3f, 0x10a3f), (0x10ae5, 0x10ae6), (0x10d24, 0x10d27), (0x10eab, 0x10eac),
  (0x10f46, 0x10f50), (0x10f82, 0x10f85), (0x11046, 0x11046), (0x11070, 0x11070),
  (0x1107f, 0x1107f), (0x110b9, 0x110ba), (0x11100, 0x11102), (0x11133, 0x11134),
  (0x11173, 0x11173), (0x111c0, 0x111c0), (0x111ca, 0x111ca), (0x11235, 0x11236),
  (0x112e9, 0x112ea), (0x1133b, 0x1133c), (0x1134d, 0x1134d), (0x11366, 0x1136c),
  (0x11370, 0x11374), (0x11442, 0x11442), (0x11446, 0x11446), (0x1145e, 0x1145e),
  (0x114c2, 0x114c3), (0x115bf, 0x115c0), (0x1163f, 0x1163f), (0x116b6, 0x116b7),
  (0x1172b, 0x1172b), (0x11839, 0x1183a), (0x1193d, 0x1193e), (0x11943, 0x11943),
  (0x119e0, 0x119e0), (0x11a34, 0x11a34), (0x11a47, 0x11a47), (0x11a99, 0x11a99),
  (0x11c3f, 0x11c3f), (0x11d42, 0x11d42), (0x11d44, 0x11d45), (0x11d97, 0x11d97),
  (0x16af0, 0x16af4), (0x16b30, 0x16b36), (0x16ff0, 0x16ff1), (0x1bc9e, 0x1bc9e),
  (0x1d165, 0x1d169), (0x1d16d, 0x1d172), (0x1d17b, 0x1d182), (0x1d185, 0x1d18b),
  (0x1d1aa, 0x1d1ad), (0x1d242, 0x1d244), (0x1e000, 0x1e006), (0x1e008, 0x1e018),
  (0x1e01b, 0x1e021), (0x1e023, 0x1e024), (0x1e026, 0x1e02a), (0x1e130, 0x1e136),
  (0x1e2ae, 0x1e2ae), (0x1e2ec, 0x1e2ef), (0x1e8d0, 0x1e8d6), (0x1e944, 0x1e94a)]

/-- Runs of consecutive characters, each with the one base character that it stands for: itself, if
it is not composed. -/
def baseRuns : List (Nat × String) := [
  (0xc0, "AAAAAAÆCEEEEIIIIÐNOOOOO×ØUUUUYÞßaaaaaaæceeeeiiiiðnooooo÷øuuuuyþy"),
  (0x100, "AaAaAaCcCcCcCcDdĐđEeEeEeEeEeGgGgGgGgHhĦħIiIiIiIiIıĲĳJjKkĸLlLlLl"),
  (0x143, "NnNnNnŉŊŋOoOoOoŒœRrRrRrSsSsSsSsTtTtŦŧUuUuUuUuUuUuWwYyYZzZzZz"),
  (0x1a0, "Oo"),
  (0x1af, "Uu"),
  (0x1cd, "AaIiOoUuUuUuUuUuǝAaAaÆæǤǥGgKkOoOoƷʒjǱǲǳGgǶǷNnAaÆæØøAaAaEeEeIiIiO"),
  (0x20d, "oOoRrRrUuUuSsTtȜȝHhȠȡȢȣȤȥAaEeOoOoOoOoYy"),
  (0x374, "ʹ"),
  (0x37e, ";Ϳ΀΁΂΃΄¨Α·ΕΗΙ΋Ο΍ΥΩι"),
  (0x3aa, "ΙΥαεηιυ"),
  (0x3ca, "ιυουωϏϐϑϒϒϒ"),
  (0x400, "ЕЕЂГЄЅІІЈЉЊЋКИУ"),
  (0x419, "И"),
  (0x439, "и"),
  (0x450, "ееђгєѕііјљњћкиу"),
  (0x476, "Ѵѵ"),
  (0x4c1, "Жж"),
  (0x4d0, "АаАаӔӕЕеӘәӘәЖжЗзӠӡИиИиОоӨөӨөЭэУуУуУуЧчӶӷЫы"),
  (0x622, "ااواي"),
  (0x6c0, "ەہہ"),
  (0x6d3, "ے"),
  (0x929, "नपफबभमयररलळळ"),
  (0x958, "कखगजडढफय"),
  (0x9dc, "ডঢ৞য"),
  (0xa33, "ਲ਴ਵਸ"),
  (0xa59, "ਖਗਜੜ੝ਫ"),
  (0xb5c, "ଡଢ"),
  (0xc48, "ె"),
  (0xdda, "ෙ"),
  (0xf76, "ྲཷླ"),
  (0x1e00, "AaBbBbBbCcDdDdDdDdDdEeEeEeEeEeFfGgHhHhHhHhHhIiIiKkKkKkLlLlLlLlMm"),
  (0x1e40, "MmMmNnNnNnNnOoOoOoOoPpPpRrRrRrRrSsSsSsSsSsTtTtTtTtUuUuUuUuUuVvVv"),
  (0x1e80, "WwWwWwWwWwXxXxYyZzZzZzhtwyẚſẜẝẞẟAaAaAaAaAaAaAaAaAaAaAaAaEeEeEeEe"),
  (0x1ec0, "EeEeEeEeIiIiOoOoOoOoOoOoOoOoOoOoOoOoUuUuUuUuUuUuUuYyYyYyYy"),
  (0x1f00, "ααααααααΑΑΑΑΑΑΑΑεεεεεε἖἗ΕΕΕΕΕΕ἞἟ηηηηηηηηΗΗΗΗΗΗΗΗιιιιιιιιΙΙΙΙΙΙΙΙ"),
  (0x1f40, "οοοοοο὆὇ΟΟΟΟΟΟ὎὏υυυυυυυυ὘Υ὚Υ὜Υ὞ΥωωωωωωωωΩΩΩΩΩΩΩΩααεεηηιιοουυωω"),
  (0x1f80, "ααααααααΑΑΑΑΑΑΑΑηηηηηηηηΗΗΗΗΗΗΗΗωωωωωωωωΩΩΩΩΩΩΩΩααααα᾵ααΑΑΑΑΑ᾽ι"),
  (0x1fc1, "¨ηηη῅ηηΕΕΗΗΗ᾿᾿᾿ιιιι῔῕ιιΙΙΙΙ῜῾῾῾υυυυρρυυΥΥΥΥΡ¨¨`῰῱ωωω῵ωωΟΟΩΩΩ´῾῿ "),
  (0x2001, " "),
  (0x2126, "Ω℧ℨ℩KA"),
  (0x219a, "←→"),
  (0x21ae, "↔"),
  (0x21cd, "⇐⇔⇒"),
  (0x2204, "∃∅∆∇∈∈∊∋∋"),
  (0x2224, "∣∥∥"),
  (0x2241, "∼≂≃≃≅≆≅≈≈"),
  (0x2260, "=≡≡"),
  (0x226d, "≍<>≤≥≲≳≲≳≶≷≶≷≺≻≼≽≾≿≺≻⊂⊃⊂⊃⊆⊇⊆⊇"),
  (0x22ac, "⊢⊨⊩⊫"),
  (0x22e0, "≼≽⊑⊒⋤⋥⋦⋧⋨⋩⊲⊳⊴⊵"),
  (0x2329, "〈〉"),
  (0x2adc, "⫝"),
  (0x304c, "かききくくけけここささししすすせせそそたたちちっつつててととなにぬねのはははひひひふふふへへへほほほ"),
  (0x3094, "う"),
  (0x309e, "ゝ"),
  (0x30ac, "カキキククケケココササシシススセセソソタタチチッツツテテトトナニヌネノハハハヒヒヒフフフヘヘヘホホホ"),
  (0x30f4, "ウヵヶワヰヱヲ・ーヽヽ"),
  (0xf900, "豈更車賈滑串句龜龜契金喇奈懶癩羅蘿螺裸邏樂洛烙珞落酪駱亂卵欄爛蘭鸞嵐濫藍襤拉臘蠟廊朗浪狼郎來冷勞擄櫓爐盧老蘆虜路露魯鷺碌祿綠菉錄"),
  (0xf940, "鹿論壟弄籠聾牢磊賂雷壘屢樓淚漏累縷陋勒肋凜凌稜綾菱陵讀拏樂諾丹寧怒率異北磻便復不泌數索參塞省葉說殺辰沈拾若掠略亮兩凉梁糧良諒量勵"),
  (0xf980, "呂女廬旅濾礪閭驪麗黎力曆歷轢年憐戀撚漣煉璉秊練聯輦蓮連鍊列劣咽烈裂說廉念捻殮簾獵令囹寧嶺怜玲瑩羚聆鈴零靈領例禮醴隸惡了僚寮尿料樂"),
  (0xf9c0, "燎療蓼遼龍暈阮劉杻柳流溜琉留硫紐類六戮陸倫崙淪輪律慄栗率隆利吏履易李梨泥理痢罹裏裡里離匿溺吝燐璘藺隣鱗麟林淋臨立笠粒狀炙識什茶刺"),
  (0xfa00, "切度拓糖宅洞暴輻行降見廓兀嗀﨎﨏塚﨑晴﨓﨔凞猪益礼神祥福靖精羽﨟蘒﨡諸﨣﨤逸都﨧﨨﨩飯飼館鶴郞隷侮僧免勉勤卑喝嘆器塀墨層屮悔慨憎"),
  (0xfa40, "懲敏既暑梅海渚漢煮爫琢碑社祉祈祐祖祝禍禎穀突節練縉繁署者臭艹艹著褐視謁謹賓贈辶逸難響頻恵𤋮舘﩮﩯並况全侀充冀勇勺喝啕喙嗢塚墳奄奔"),
  (0xfa80, "婢嬨廒廙彩徭惘慎愈憎慠懲戴揄搜摒敖晴朗望杖歹殺流滛滋漢瀞煮瞧爵犯猪瑱甆画瘝瘟益盛直睊着磌窱節类絛練缾者荒華蝹襁覆視調諸請謁諾諭謹"),
  (0xfac0, "變贈輸遲醙鉶陼難靖韛響頋頻鬒龜𢡊𢡄𣏕㮝䀘䀹𥉉𥳐𧻓齃龎"),
  (0xfb1d, "יﬞײ"),
  (0xfb2a, "ששששאאאבגדהוז﬷טיךכל﬽מ﬿נס﭂ףפ﭅צקרשתובכפ"),
  (0x1109a, "𑂙𑂛𑂛"),
  (0x110ab, "𑂥"),
  (0x1d15e, "𝅗𝅘𝅘𝅘𝅘𝅘𝅘"),
  (0x1d1bb, "𝆹𝆺𝆹𝆺𝆹𝆺"),
  (0x2f800, "丽丸乁𠄢你侮侻倂偺備僧像㒞𠘺免兔兤具𠔜㒹內再𠕋冗冤仌冬况𩇟凵刃㓟刻剆割剷㔕勇勉勤勺包匆北卉卑博即卽卿卿卿𠨬灰及叟𠭣叫叱吆咞吸呈周"),
  (0x2f840, "咢哶唐啓啣善善喙喫喳嗂圖嘆圗噑噴切壮城埴堍型堲報墬𡓤売壷夆多夢奢𡚨𡛪姬娛娧姘婦㛮㛼嬈嬾嬾𡧈寃寘寧寳𡬘寿将当尢㞁屠屮峀岍𡷤嵃𡷦嵮嵫"),
  (0x2f880, "嵼巡巢㠯巽帨帽幩㡢𢆃㡼庰庳庶廊𪎒廾𢌱𢌱舁弢弢㣇𣊸𦇚形彫㣣徚忍志忹悁㤺㤜悔𢛔惇慈慌慎慌慺憎憲憤憯懞懲懶成戛扝抱拔捐𢬌挽拼捨掃揤𢯱搢"),
  (0x2f8c0, "揅掩㨮摩摾撝摷㩬敏敬𣀊旣書晉㬙暑㬈㫤冒冕最暜肭䏙朗望朡杞杓𣏃㭉柺枅桒梅𣑭梎栟椔㮝楂榣槪檨𣚣櫛㰘次𣢧歔㱎歲殟殺殻𣪍𡴋𣫺汎𣲼沿泍汧洖"),
  (0x2f900, "派海流浩浸涅𣴞洴港湮㴳滋滇𣻑淹潮𣽞𣾎濆瀹瀞瀛㶖灊災灷炭𠔥煅𤉣熜𤎫爨爵牐𤘈犀犕𤜵𤠔獺王㺬玥㺸㺸瑇瑜瑱璅瓊㼛甤𤰶甾𤲒異𢆟瘐𤾡𤾸𥁄㿼䀈"),
  (0x2f940, "直𥃳𥃲𥄙𥄳眞真真睊䀹瞋䁆䂖𥐝硎碌磌䃣𥘦祖𥚚𥛅福秫䄯穀穊穏𥥼𥪧𥪧竮䈂𥮫篆築䈧𥲀糒䊠糨糣紀𥾆絣䌁緇縂繅䌴𦈨𦉇䍙𦋙罺𦌾羕翺者𦓚𦔣聠𦖨聰"),
  (0x2f980, "𣍟䏕育脃䐋脾媵𦞧𦞵𣎓𣎜舁舄辞䑫芑芋芝劳花芳芽苦𦬼若茝荣莭茣莽菧著荓菊菌菜𦰶𦵫𦳕䔫蓱蓳蔖𧏊蕤𦼬䕝䕡𦾱𧃒䕫虐虜虧虩蚩蚈蜎蛢蝹蜨蝫螆䗗"),
  (0x2f9c0, "蟡蠁䗹衠衣𧙧裗裞䘵裺㒻𧢮𧥦䚾䛇誠諭變豕𧲨貫賁贛起𧼯𠠄跋趼跰𠣞軔輸𨗒𨗭邔郱鄑𨜮鄛鈸鋗鋘鉼鏹鐕𨯺開䦕閷𨵷䧦雃嶲霣𩅅𩈚䩮䩶韠𩐊䪲𩒖頋頋"),
  (0x2fa00, "頩𩖶飢䬳餩馧駂駾䯎𩬰鬒鱀鳽䳎䳭鵧𪃎䳸𪄅𪈎𪊑麻䵖黹黾鼅鼏鼖鼻𪘀")]

/-- The composed characters whose marks leave no base character, or several. -/
def baseTexts : List (Nat × List Nat) := [
  (0x9cb, [0x9c7, 0x9be]), (0x9cc, [0x9c7, 0x9d7]), (0xb48, [0xb47, 0xb56]),
  (0xb4b, [0xb47, 0xb3e]), (0xb4c, [0xb47, 0xb57]), (0xb94, [0xb92, 0xbd7]),
  (0xbca, [0xbc6, 0xbbe]), (0xbcb, [0xbc7, 0xbbe]), (0xbcc, [0xbc6, 0xbd7]),
  (0xcc0, [0xcbf, 0xcd5]), (0xcc7, [0xcc6, 0xcd5]), (0xcc8, [0xcc6, 0xcd6]),
  (0xcca, [0xcc6, 0xcc2]), (0xccb, [0xcc6, 0xcc2, 0xcd5]), (0xd4a, [0xd46, 0xd3e]),
  (0xd4b, [0xd47, 0xd3e]), (0xd4c, [0xd46, 0xd57]), (0xddc, [0xdd9, 0xdcf]),
  (0xddd, [0xdd9, 0xdcf]), (0xdde, [0xdd9, 0xddf]), (0xf43, [0xf42, 0xfb7]),
  (0xf4d, [0xf4c, 0xfb7]), (0xf52, [0xf51, 0xfb7]), (0xf57, [0xf56, 0xfb7]),
  (0xf5c, [0xf5b, 0xfb7]), (0xf69, [0xf40, 0xfb5]), (0xf73, []), (0xf75, []), (0xf81, []),
  (0xf93, [0xf92, 0xfb7]), (0xf9d, [0xf9c, 0xfb7]), (0xfa2, [0xfa1, 0xfb7]),
  (0xfa7, [0xfa6, 0xfb7]), (0xfac, [0xfab, 0xfb7]), (0xfb9, [0xf90, 0xfb5]),
  (0x1026, [0x1025, 0x102e]), (0x1b06, [0x1b05, 0x1b35]), (0x1b08, [0x1b07, 0x1b35]),
  (0x1b0a, [0x1b09, 0x1b35]), (0x1b0c, [0x1b0b, 0x1b35]), (0x1b0e, [0x1b0d, 0x1b35]),
  (0x1b12, [0x1b11, 0x1b35]), (0x1b3b, [0x1b3a, 0x1b35]), (0x1b3d, [0x1b3c, 0x1b35]),
  (0x1b40, [0x1b3e, 0x1b35]), (0x1b41, [0x1b3f, 0x1b35]), (0x1b43, [0x1b42, 0x1b35]),
  (0x1112e, [0x11131, 0x11127]), (0x1112f, [0x11132, 0x11127]), (0x1134b, [0x11347, 0x1133e]),
  (0x1134c, [0x11347, 0x11357]), (0x114bb, [0x114b9, 0x114ba]), (0x114bc, [0x114b9, 0x114b0]),
  (0x114be, [0x114b9, 0x114bd]), (0x115ba, [0x115b8, 0x115af]), (0x115bb, [0x115b9, 0x115af]),
  (0x11938, [0x11935, 0x11930])]

end BlockScript.Text

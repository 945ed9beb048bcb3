namespace Sumi.Text.Compatibility

/-- The letters and numerals that a name of the generated code may have but not keep, in rows of
neighbours: the first one's code point, and what stands in place of each. -/
def rows : List (Nat × String) := [
  (0xAA, "a"), (0xB5, "μ"), (0xBA, "o"), (0x132, "IJ ij"), (0x13F, "L· l·"), (0x149, "ʼn"),
  (0x17F, "s"), (0x1C4, "DŽ Dž dž LJ Lj lj NJ Nj nj"), (0x1F1, "DZ Dz dz"),
  (0x2B0, "h ɦ j r ɹ ɻ ʁ w y"), (0x2E0, "ɣ l s x ʕ"), (0x374, "ʹ"), (0x3D0, "β θ Υ Ύ Ϋ φ π"),
  (0x3F0, "κ ρ ς"), (0x3F4, "Θ ε"), (0x3F9, "Σ"), (0x587, "եւ"), (0x675, "اٴ وٴ ۇٴ يٴ"),
  (0x958, "क़ ख़ ग़ ज़ ड़ ढ़ फ़ य़"), (0x9DC, "ড় ঢ়"), (0x9DF, "য়"), (0xA33, "ਲ਼"),
  (0xA36, "ਸ਼"), (0xA59, "ਖ਼ ਗ਼ ਜ਼"), (0xA5E, "ਫ਼"), (0xB5C, "ଡ଼ ଢ଼"), (0xE33, "ํา"),
  (0xEB3, "ໍາ"), (0xEDC, "ຫນ ຫມ"), (0xF43, "གྷ"), (0xF4D, "ཌྷ"), (0xF52, "དྷ"), (0xF57, "བྷ"),
  (0xF5C, "ཛྷ"), (0xF69, "ཀྵ"), (0x10FC, "ნ"), (0x1D2C, "A Æ B"),
  (0x1D30, "D E Ǝ G H I J K L M N"), (0x1D3C, "O Ȣ P R T U W a ɐ ɑ ᴂ b d e ə ɛ ɜ g"),
  (0x1D4F, "k m ŋ o ɔ ᴖ ᴗ p t u ᴝ ɯ v ᴥ β γ δ φ χ i r u v β γ ρ φ χ"), (0x1D78, "н"),
  (0x1D9B, "ɒ c ɕ ð ɜ f ɟ ɡ ɥ ɨ ɩ ɪ ᵻ ʝ ɭ ᶅ ʟ ɱ ɰ ɲ ɳ ɴ ɵ ɸ ʂ ʃ ƫ ʉ ʊ ᴜ"),
  (0x1DB9, "ʋ ʌ z ʐ ʑ ʒ θ"), (0x1E9A, "aʾ ṡ"), (0x1F71, "ά"), (0x1F73, "έ"), (0x1F75, "ή"),
  (0x1F77, "ί"), (0x1F79, "ό"), (0x1F7B, "ύ"), (0x1F7D, "ώ"), (0x1FBB, "Ά"), (0x1FBE, "ι"),
  (0x1FC9, "Έ"), (0x1FCB, "Ή"), (0x1FD3, "ΐ"), (0x1FDB, "Ί"), (0x1FE3, "ΰ"), (0x1FEB, "Ύ"),
  (0x1FF9, "Ό"), (0x1FFB, "Ώ"), (0x2071, "i"), (0x207F, "n"),
  (0x2090, "a e o x ə h k l m n p s t"), (0x2102, "C"), (0x2107, "Ɛ"),
  (0x210A, "g H H H h ħ I I L l"), (0x2115, "N"), (0x2119, "P Q R R R"), (0x2124, "Z"),
  (0x2126, "Ω"), (0x2128, "Z"), (0x212A, "K Å B C"), (0x212F, "e E F"), (0x2133, "M o א ב ג ד i"),
  (0x213C, "π γ Γ Π"), (0x2145, "D d e i j"),
  (0x2160, "I II III IV V VI VII VIII IX X XI XII L C D M i ii iii iv v"),
  (0x2175, "vi vii viii ix x xi xii l c d m"), (0x2C7C, "j V"), (0x2D6F, "ⵡ"), (0x3038, "十 卄 卅"),
  (0x309F, "より"), (0x30FF, "コト"),
  (0x3131, "ᄀ ᄁ ᆪ ᄂ ᆬ ᆭ ᄃ ᄄ ᄅ ᆰ ᆱ ᆲ ᆳ ᆴ ᆵ ᄚ ᄆ ᄇ ᄈ ᄡ ᄉ ᄊ ᄋ ᄌ ᄍ ᄎ ᄏ ᄐ ᄑ ᄒ"),
  (0x314F, "ᅡ ᅢ ᅣ ᅤ ᅥ ᅦ ᅧ ᅨ ᅩ ᅪ ᅫ ᅬ ᅭ ᅮ ᅯ ᅰ ᅱ ᅲ ᅳ ᅴ ᅵ ᅠ ᄔ ᄕ ᇇ ᇈ ᇌ ᇎ ᇓ ᇗ"),
  (0x316D, "ᇙ ᄜ ᇝ ᇟ ᄝ ᄞ ᄠ ᄢ ᄣ ᄧ ᄩ ᄫ ᄬ ᄭ ᄮ ᄯ ᄲ ᄶ ᅀ ᅇ ᅌ ᇱ ᇲ ᅗ ᅘ ᅙ ᆄ ᆅ ᆈ ᆑ"), (0x318B, "ᆒ ᆔ ᆞ ᆡ"),
  (0xA69C, "ъ ь"), (0xA770, "ꝯ"), (0xA7F2, "C F Q"), (0xA7F8, "Ħ œ"), (0xAB5C, "ꜧ ꬷ ɫ ꭒ"),
  (0xAB69, "ʍ"), (0xF900, "豈 更 車 賈 滑 串 句 龜 龜 契 金 喇 奈 懶 癩 羅 蘿 螺 裸 邏 樂 洛 烙 珞 落 酪 駱 亂 卵 欄"),
  (0xF91E, "爛 蘭 鸞 嵐 濫 藍 襤 拉 臘 蠟 廊 朗 浪 狼 郎 來 冷 勞 擄 櫓 爐 盧 老 蘆 虜 路 露 魯 鷺 碌"),
  (0xF93C, "祿 綠 菉 錄 鹿 論 壟 弄 籠 聾 牢 磊 賂 雷 壘 屢 樓 淚 漏 累 縷 陋 勒 肋 凜 凌 稜 綾 菱 陵"),
  (0xF95A, "讀 拏 樂 諾 丹 寧 怒 率 異 北 磻 便 復 不 泌 數 索 參 塞 省 葉 說 殺 辰 沈 拾 若 掠 略 亮"),
  (0xF978, "兩 凉 梁 糧 良 諒 量 勵 呂 女 廬 旅 濾 礪 閭 驪 麗 黎 力 曆 歷 轢 年 憐 戀 撚 漣 煉 璉 秊"),
  (0xF996, "練 聯 輦 蓮 連 鍊 列 劣 咽 烈 裂 說 廉 念 捻 殮 簾 獵 令 囹 寧 嶺 怜 玲 瑩 羚 聆 鈴 零 靈"),
  (0xF9B4, "領 例 禮 醴 隸 惡 了 僚 寮 尿 料 樂 燎 療 蓼 遼 龍 暈 阮 劉 杻 柳 流 溜 琉 留 硫 紐 類 六"),
  (0xF9D2, "戮 陸 倫 崙 淪 輪 律 慄 栗 率 隆 利 吏 履 易 李 梨 泥 理 痢 罹 裏 裡 里 離 匿 溺 吝 燐 璘"),
  (0xF9F0, "藺 隣 鱗 麟 林 淋 臨 立 笠 粒 狀 炙 識 什 茶 刺 切 度 拓 糖 宅 洞 暴 輻 行 降 見 廓 兀 嗀"), (0xFA10, "塚"),
  (0xFA12, "晴"), (0xFA15, "凞 猪 益 礼 神 祥 福 靖 精 羽"), (0xFA20, "蘒"), (0xFA22, "諸"), (0xFA25, "逸 都"),
  (0xFA2A, "飯 飼 館 鶴 郞 隷 侮 僧 免 勉 勤 卑 喝 嘆 器 塀 墨 層 屮 悔 慨 憎 懲 敏 既 暑 梅 海 渚 漢"),
  (0xFA48, "煮 爫 琢 碑 社 祉 祈 祐 祖 祝 禍 禎 穀 突 節 練 縉 繁 署 者 臭 艹 艹 著 褐 視 謁 謹 賓 贈"),
  (0xFA66, "辶 逸 難 響 頻 恵 𤋮 舘"),
  (0xFA70, "並 况 全 侀 充 冀 勇 勺 喝 啕 喙 嗢 塚 墳 奄 奔 婢 嬨 廒 廙 彩 徭 惘 慎 愈 憎 慠 懲 戴 揄"),
  (0xFA8E, "搜 摒 敖 晴 朗 望 杖 歹 殺 流 滛 滋 漢 瀞 煮 瞧 爵 犯 猪 瑱 甆 画 瘝 瘟 益 盛 直 睊 着 磌"),
  (0xFAAC, "窱 節 类 絛 練 缾 者 荒 華 蝹 襁 覆 視 調 諸 請 謁 諾 諭 謹 變 贈 輸 遲 醙 鉶 陼 難 靖 韛"),
  (0xFACA, "響 頋 頻 鬒 龜 𢡊 𢡄 𣏕 㮝 䀘 䀹 𥉉 𥳐 𧻓 齃 龎"), (0xFB00, "ff fi fl ffi ffl st st"),
  (0xFB13, "մն մե մի վն մխ"), (0xFB1D, "יִ"), (0xFB1F, "ײַ ע א ד ה כ ל ם ר ת"),
  (0xFB2A, "שׁ שׂ שּׁ שּׂ אַ אָ אּ בּ גּ דּ הּ וּ זּ"), (0xFB38, "טּ יּ ךּ כּ לּ"), (0xFB3E, "מּ"),
  (0xFB40, "נּ סּ"), (0xFB43, "ףּ פּ"),
  (0xFB46, "צּ קּ רּ שּ תּ וֹ בֿ כֿ פֿ אל ٱ ٱ ٻ ٻ ٻ ٻ پ پ پ پ ڀ ڀ ڀ ڀ ٺ"),
  (0xFB5F, "ٺ ٺ ٺ ٿ ٿ ٿ ٿ ٹ ٹ ٹ ٹ ڤ ڤ ڤ ڤ ڦ ڦ ڦ ڦ ڄ ڄ ڄ ڄ ڃ ڃ ڃ ڃ چ چ چ"),
  (0xFB7D, "چ ڇ ڇ ڇ ڇ ڍ ڍ ڌ ڌ ڎ ڎ ڈ ڈ ژ ژ ڑ ڑ ک ک ک ک گ گ گ گ ڳ ڳ ڳ ڳ ڱ"),
  (0xFB9B, "ڱ ڱ ڱ ں ں ڻ ڻ ڻ ڻ ۀ ۀ ہ ہ ہ ہ ھ ھ ھ ھ ے ے ۓ ۓ"),
  (0xFBD3, "ڭ ڭ ڭ ڭ ۇ ۇ ۆ ۆ ۈ ۈ ۇٴ ۋ ۋ ۅ ۅ ۉ ۉ ې ې ې ې ى ى ئا ئا ئە ئە"),
  (0xFBEE, "ئو ئو ئۇ ئۇ ئۆ ئۆ ئۈ ئۈ ئې ئې ئې ئى ئى ئى ی ی ی ی ئج ئح ئم"),
  (0xFC03, "ئى ئي بج بح بخ بم بى بي تج تح تخ تم تى تي ثج ثم ثى ثي جح جم"),
  (0xFC17, "حج حم خج خح خم سج سح سخ سم صح صم ضج ضح ضخ ضم طح طم ظم عج عم"),
  (0xFC2B, "غج غم فج فح فخ فم فى في قح قم قى قي كا كج كح كخ كل كم كى كي"),
  (0xFC3F, "لج لح لخ لم لى لي مج مح مخ مم مى مي نج نح نخ نم نى ني هج هم"),
  (0xFC53, "هى هي يج يح يخ يم يى يي ذٰ رٰ ىٰ"),
  (0xFC64, "ئر ئز ئم ئن ئى ئي بر بز بم بن بى بي تر تز تم تن تى تي ثر ثز"),
  (0xFC78, "ثم ثن ثى ثي فى في قى قي كا كل كم كى كي لم لى لي ما مم نر نز"),
  (0xFC8C, "نم نن نى ني ىٰ ير يز يم ين يى يي ئج ئح ئخ ئم ئه بج بح بخ بم"),
  (0xFCA0, "به تج تح تخ تم ته ثم جح جم حج حم خج خم سج سح سخ سم صح صخ صم"),
  (0xFCB4, "ضج ضح ضخ ضم طح ظم عج عم غج غم فج فح فخ فم قح قم كج كح كخ كل"),
  (0xFCC8, "كم لج لح لخ لم له مج مح مخ مم نج نح نخ نم نه هج هم هٰ يج يح"),
  (0xFCDC, "يخ يم يه ئم ئه بم به تم ته ثم ثه سم سه شم شه كل كم لم نم نه"),
  (0xFCF0, "يم يه ـَّ ـُّ ـِّ طى طي عى عي غى غي سى سي شى شي حى حي جى جي"),
  (0xFD03, "خى خي صى صي ضى ضي شج شح شخ شم شر سر صر ضر طى طي عى عي غى غي"),
  (0xFD17, "سى سي شى شي حى حي جى جي خى خي صى صي ضى ضي شج شح شخ شم شر سر"),
  (0xFD2B, "صر ضر شج شح شخ شم سه شه طم سج سح سخ شج شح شخ طم ظم اً اً"),
  (0xFD50, "تجم تحج تحج تحم تخم تمج تمح تمخ جمح جمح حمي حمى سحج سجح سجى"),
  (0xFD5F, "سمح سمح سمج سمم سمم صحح صحح صمم شحم شحم شجي شمخ شمخ شمم شمم"),
  (0xFD6E, "ضحى ضخم ضخم طمح طمح طمم طمي عجم عمم عمم عمى غمم غمي غمى فخم"),
  (0xFD7D, "فخم قمح قمم لحم لحي لحى لجج لجج لخم لخم لمح لمح محج محم محي"),
  (0xFD8C, "مجح مجم مخج مخم"),
  (0xFD92, "مجخ همج همم نحم نحى نجم نجم نجى نمي نمى يمم يمم بخي تجي تجى"),
  (0xFDA1, "تخي تخى تمي تمى جمي جحى جمى سخى صحي شحي ضحي لجي لمي يحي يجي"),
  (0xFDB0, "يمي ممي قمي نحي قمح لحم عمي كمي نجح مخي لجم كمم لجم نجح جحي"),
  (0xFDBF, "حجي مجي فمي بحي كمم عجم صمم سخي نجي"),
  (0xFDF0, "صلے قلے الله اكبر محمد صلعم رسول عليه وسلم صلى"), (0xFE71, "ـً"), (0xFE77, "ـَ"),
  (0xFE79, "ـُ"), (0xFE7B, "ـِ"), (0xFE7D, "ـّ"),
  (0xFE7F, "ـْ ء آ آ أ أ ؤ ؤ إ إ ئ ئ ئ ئ ا ا ب ب ب ب ة ة ت ت ت ت ث ث ث"),
  (0xFE9C, "ث ج ج ج ج ح ح ح ح خ خ خ خ د د ذ ذ ر ر ز ز س س س س ش ش ش ش ص"),
  (0xFEBA, "ص ص ص ض ض ض ض ط ط ط ط ظ ظ ظ ظ ع ع ع ع غ غ غ غ ف ف ف ف ق ق ق"),
  (0xFED8, "ق ك ك ك ك ل ل ل ل م م م م ن ن ن ن ه ه ه ه و و ى ى ي ي ي ي"),
  (0xFEF5, "لآ لآ لأ لأ لإ لإ لا لا"), (0xFF10, "0 1 2 3 4 5 6 7 8 9"),
  (0xFF21, "A B C D E F G H I J K L M N O P Q R S T U V W X Y Z"),
  (0xFF41, "a b c d e f g h i j k l m n o p q r s t u v w x y z"),
  (0xFF66, "ヲ ァ ィ ゥ ェ ォ ャ ュ ョ ッ ー ア イ ウ エ オ カ キ ク ケ コ サ シ ス セ ソ タ チ ツ テ"),
  (0xFF84, "ト ナ ニ ヌ ネ ノ ハ ヒ フ ヘ ホ マ ミ ム メ モ ヤ ユ ヨ ラ リ ル レ ロ ワ ン ゙ ゚ ᅠ ᄀ"),
  (0xFFA2, "ᄁ ᆪ ᄂ ᆬ ᆭ ᄃ ᄄ ᄅ ᆰ ᆱ ᆲ ᆳ ᆴ ᆵ ᄚ ᄆ ᄇ ᄈ ᄡ ᄉ ᄊ ᄋ ᄌ ᄍ ᄎ ᄏ ᄐ ᄑ ᄒ"), (0xFFC2, "ᅡ ᅢ ᅣ ᅤ ᅥ ᅦ"),
  (0xFFCA, "ᅧ ᅨ ᅩ ᅪ ᅫ ᅬ"), (0xFFD2, "ᅭ ᅮ ᅯ ᅰ ᅱ ᅲ"), (0xFFDA, "ᅳ ᅴ ᅵ"), (0x10781, "ː ˑ æ ʙ ɓ"),
  (0x10787, "ʣ ꭦ ʥ ʤ ɖ ɗ ᶑ ɘ ɞ ʩ ɤ ɢ ɠ ʛ ħ ʜ ɧ ʄ ʪ ʫ ɬ 𝼄 ꞎ ɮ 𝼅 ʎ 𝼆 ø ɶ ɷ"),
  (0x107A5, "q ɺ 𝼈 ɽ ɾ ʀ ʨ ʦ ꭧ ʧ ʈ ⱱ"), (0x107B2, "ʏ ʡ ʢ ʘ ǀ ǁ ǂ 𝼊 𝼞"),
  (0x1D400, "A B C D E F G H I J K L M N O P Q R S T U V W X Y Z a b c d"),
  (0x1D41E, "e f g h i j k l m n o p q r s t u v w x y z A B C D E F G H"),
  (0x1D43C, "I J K L M N O P Q R S T U V W X Y Z a b c d e f g"),
  (0x1D456, "i j k l m n o p q r s t u v w x y z A B C D E F G H I J K L"),
  (0x1D474, "M N O P Q R S T U V W X Y Z a b c d e f g h i j k l m n o p"),
  (0x1D492, "q r s t u v w x y z A"), (0x1D49E, "C D"), (0x1D4A2, "G"), (0x1D4A5, "J K"),
  (0x1D4A9, "N O P Q"), (0x1D4AE, "S T U V W X Y Z a b c d"), (0x1D4BB, "f"),
  (0x1D4BD, "h i j k l m n"),
  (0x1D4C5, "p q r s t u v w x y z A B C D E F G H I J K L M N O P Q R S"),
  (0x1D4E3, "T U V W X Y Z a b c d e f g h i j k l m n o p q r s t u v w"), (0x1D501, "x y z A B"),
  (0x1D507, "D E F G"), (0x1D50D, "J K L M N O P Q"), (0x1D516, "S T U V W X Y"),
  (0x1D51E, "a b c d e f g h i j k l m n o p q r s t u v w x y z A B"), (0x1D53B, "D E F G"),
  (0x1D540, "I J K L M"), (0x1D546, "O"), (0x1D54A, "S T U V W X Y"),
  (0x1D552, "a b c d e f g h i j k l m n o p q r s t u v w x y z A B C D"),
  (0x1D570, "E F G H I J K L M N O P Q R S T U V W X Y Z a b c d e f g h"),
  (0x1D58E, "i j k l m n o p q r s t u v w x y z A B C D E F G H I J K L"),
  (0x1D5AC, "M N O P Q R S T U V W X Y Z a b c d e f g h i j k l m n o p"),
  (0x1D5CA, "q r s t u v w x y z A B C D E F G H I J K L M N O P Q R S T"),
  (0x1D5E8, "U V W X Y Z a b c d e f g h i j k l m n o p q r s t u v w x"),
  (0x1D606, "y z A B C D E F G H I J K L M N O P Q R S T U V W X Y Z a b"),
  (0x1D624, "c d e f g h i j k l m n o p q r s t u v w x y z A B C D E F"),
  (0x1D642, "G H I J K L M N O P Q R S T U V W X Y Z a b c d e f g h i j"),
  (0x1D660, "k l m n o p q r s t u v w x y z A B C D E F G H I J K L M N"),
  (0x1D67E, "O P Q R S T U V W X Y Z a b c d e f g h i j k l m n o p q r"),
  (0x1D69C, "s t u v w x y z ı ȷ"), (0x1D6A8, "Α Β Γ Δ Ε Ζ Η Θ Ι Κ Λ Μ Ν Ξ Ο Π Ρ Θ Σ Τ Υ Φ Χ Ψ Ω"),
  (0x1D6C2, "α β γ δ ε ζ η θ ι κ λ μ ν ξ ο π ρ ς σ τ υ φ χ ψ ω"),
  (0x1D6DC, "ε θ κ φ ρ π Α Β Γ Δ Ε Ζ Η Θ Ι Κ Λ Μ Ν Ξ Ο Π Ρ Θ Σ Τ Υ Φ Χ Ψ"), (0x1D6FA, "Ω"),
  (0x1D6FC, "α β γ δ ε ζ η θ ι κ λ μ ν ξ ο π ρ ς σ τ υ φ χ ψ ω"),
  (0x1D716, "ε θ κ φ ρ π Α Β Γ Δ Ε Ζ Η Θ Ι Κ Λ Μ Ν Ξ Ο Π Ρ Θ Σ Τ Υ Φ Χ Ψ"), (0x1D734, "Ω"),
  (0x1D736, "α β γ δ ε ζ η θ ι κ λ μ ν ξ ο π ρ ς σ τ υ φ χ ψ ω"),
  (0x1D750, "ε θ κ φ ρ π Α Β Γ Δ Ε Ζ Η Θ Ι Κ Λ Μ Ν Ξ Ο Π Ρ Θ Σ Τ Υ Φ Χ Ψ"), (0x1D76E, "Ω"),
  (0x1D770, "α β γ δ ε ζ η θ ι κ λ μ ν ξ ο π ρ ς σ τ υ φ χ ψ ω"),
  (0x1D78A, "ε θ κ φ ρ π Α Β Γ Δ Ε Ζ Η Θ Ι Κ Λ Μ Ν Ξ Ο Π Ρ Θ Σ Τ Υ Φ Χ Ψ"), (0x1D7A8, "Ω"),
  (0x1D7AA, "α β γ δ ε ζ η θ ι κ λ μ ν ξ ο π ρ ς σ τ υ φ χ ψ ω"), (0x1D7C4, "ε θ κ φ ρ π Ϝ ϝ"),
  (0x1D7CE, "0 1 2 3 4 5 6 7 8 9 0 1 2 3 4 5 6 7 8 9 0 1 2 3 4 5 6 7 8 9"),
  (0x1D7EC, "0 1 2 3 4 5 6 7 8 9 0 1 2 3 4 5 6 7 8 9"), (0x1EE00, "ا ب ج د"),
  (0x1EE05, "و ز ح ط ي ك ل م ن س ع ف ص ق ر ش ت ث خ ذ ض ظ غ ٮ ں ڡ ٯ"), (0x1EE21, "ب ج"),
  (0x1EE24, "ه"), (0x1EE27, "ح"), (0x1EE29, "ي ك ل م ن س ع ف ص ق"), (0x1EE34, "ش ت ث خ"),
  (0x1EE39, "ض"), (0x1EE3B, "غ"), (0x1EE42, "ج"), (0x1EE47, "ح"), (0x1EE49, "ي"), (0x1EE4B, "ل"),
  (0x1EE4D, "ن س ع"), (0x1EE51, "ص ق"), (0x1EE54, "ش"), (0x1EE57, "خ"), (0x1EE59, "ض"),
  (0x1EE5B, "غ"), (0x1EE5D, "ں"), (0x1EE5F, "ٯ"), (0x1EE61, "ب ج"), (0x1EE64, "ه"),
  (0x1EE67, "ح ط ي ك"), (0x1EE6C, "م ن س ع ف ص ق"), (0x1EE74, "ش ت ث خ"), (0x1EE79, "ض ظ غ ٮ"),
  (0x1EE7E, "ڡ"), (0x1EE80, "ا ب ج د ه و ز ح ط ي"), (0x1EE8B, "ل م ن س ع ف ص ق ر ش ت ث خ ذ ض ظ غ"),
  (0x1EEA1, "ب ج د"), (0x1EEA5, "و ز ح ط ي"), (0x1EEAB, "ل م ن س ع ف ص ق ر ش ت ث خ ذ ض ظ غ"),
  (0x1FBF0, "0 1 2 3 4 5 6 7 8 9"),
  (0x2F800, "丽 丸 乁 𠄢 你 侮 侻 倂 偺 備 僧 像 㒞 𠘺 免 兔 兤 具 𠔜 㒹 內 再 𠕋 冗 冤 仌 冬 况 𩇟 凵"),
  (0x2F81E, "刃 㓟 刻 剆 割 剷 㔕 勇 勉 勤 勺 包 匆 北 卉 卑 博 即 卽 卿 卿 卿 𠨬 灰 及 叟 𠭣 叫 叱 吆"),
  (0x2F83C, "咞 吸 呈 周 咢 哶 唐 啓 啣 善 善 喙 喫 喳 嗂 圖 嘆 圗 噑 噴 切 壮 城 埴 堍 型 堲 報 墬 𡓤"),
  (0x2F85A, "売 壷 夆 多 夢 奢 𡚨 𡛪 姬 娛 娧 姘 婦 㛮 㛼 嬈 嬾 嬾 𡧈 寃 寘 寧 寳 𡬘 寿 将 当 尢 㞁 屠"),
  (0x2F878, "屮 峀 岍 𡷤 嵃 𡷦 嵮 嵫 嵼 巡 巢 㠯 巽 帨 帽 幩 㡢 𢆃 㡼 庰 庳 庶 廊 𪎒 廾 𢌱 𢌱 舁 弢 弢"),
  (0x2F896, "㣇 𣊸 𦇚 形 彫 㣣 徚 忍 志 忹 悁 㤺 㤜 悔 𢛔 惇 慈 慌 慎 慌 慺 憎 憲 憤 憯 懞 懲 懶 成 戛"),
  (0x2F8B4, "扝 抱 拔 捐 𢬌 挽 拼 捨 掃 揤 𢯱 搢 揅 掩 㨮 摩 摾 撝 摷 㩬 敏 敬 𣀊 旣 書 晉 㬙 暑 㬈 㫤"),
  (0x2F8D2, "冒 冕 最 暜 肭 䏙 朗 望 朡 杞 杓 𣏃 㭉 柺 枅 桒 梅 𣑭 梎 栟 椔 㮝 楂 榣 槪 檨 𣚣 櫛 㰘 次"),
  (0x2F8F0, "𣢧 歔 㱎 歲 殟 殺 殻 𣪍 𡴋 𣫺 汎 𣲼 沿 泍 汧 洖 派 海 流 浩 浸 涅 𣴞 洴 港 湮 㴳 滋 滇 𣻑"),
  (0x2F90E, "淹 潮 𣽞 𣾎 濆 瀹 瀞 瀛 㶖 灊 災 灷 炭 𠔥 煅 𤉣 熜 𤎫 爨 爵 牐 𤘈 犀 犕 𤜵 𤠔 獺 王 㺬 玥"),
  (0x2F92C, "㺸 㺸 瑇 瑜 瑱 璅 瓊 㼛 甤 𤰶 甾 𤲒 異 𢆟 瘐 𤾡 𤾸 𥁄 㿼 䀈 直 𥃳 𥃲 𥄙 𥄳 眞 真 真 睊 䀹"),
  (0x2F94A, "瞋 䁆 䂖 𥐝 硎 碌 磌 䃣 𥘦 祖 𥚚 𥛅 福 秫 䄯 穀 穊 穏 𥥼 𥪧 𥪧 竮 䈂 𥮫 篆 築 䈧 𥲀 糒 䊠"),
  (0x2F968, "糨 糣 紀 𥾆 絣 䌁 緇 縂 繅 䌴 𦈨 𦉇 䍙 𦋙 罺 𦌾 羕 翺 者 𦓚 𦔣 聠 𦖨 聰 𣍟 䏕 育 脃 䐋 脾"),
  (0x2F986, "媵 𦞧 𦞵 𣎓 𣎜 舁 舄 辞 䑫 芑 芋 芝 劳 花 芳 芽 苦 𦬼 若 茝 荣 莭 茣 莽 菧 著 荓 菊 菌 菜"),
  (0x2F9A4, "𦰶 𦵫 𦳕 䔫 蓱 蓳 蔖 𧏊 蕤 𦼬 䕝 䕡 𦾱 𧃒 䕫 虐 虜 虧 虩 蚩 蚈 蜎 蛢 蝹 蜨 蝫 螆 䗗 蟡 蠁"),
  (0x2F9C2, "䗹 衠 衣 𧙧 裗 裞 䘵 裺 㒻 𧢮 𧥦 䚾 䛇 誠 諭 變 豕 𧲨 貫 賁 贛 起 𧼯 𠠄 跋 趼 跰 𠣞 軔 輸"),
  (0x2F9E0, "𨗒 𨗭 邔 郱 鄑 𨜮 鄛 鈸 鋗 鋘 鉼 鏹 鐕 𨯺 開 䦕 閷 𨵷 䧦 雃 嶲 霣 𩅅 𩈚 䩮 䩶 韠 𩐊 䪲 𩒖"),
  (0x2F9FE, "頋 頋 頩 𩖶 飢 䬳 餩 馧 駂 駾 䯎 𩬰 鬒 鱀 鳽 䳎 䳭 鵧 𪃎 䳸 𪄅 𪈎 𪊑 麻 䵖 黹 黾 鼅 鼏 鼖"), (0x2FA1C, "鼻 𪘀")]

def row? (n : Nat) : Option (Nat × String) :=
  (rows.takeWhile (·.1 ≤ n)).getLast?

def image (c : Char) : List Char :=
  match row? c.toNat with
  | some (start, images) => ((images.toList.splitOn ' ')[c.toNat - start]?).getD [c]
  | none => [c]

def voiced : List (Char × Char) :=
  "かきくけこさしすせそたちつてとはひふへほうゝカキクケコサシスセソタチツテトハヒフヘホウワヰヱヲヽ".toList.zip
    "がぎぐげござじずぜぞだぢづでどばびぶべぼゔゞガギグゲゴザジズゼゾダヂヅデドバビブベボヴヷヸヹヺヾ".toList

def plosive : List (Char × Char) := "はひふへほハヒフヘホ".toList.zip "ぱぴぷぺぽパピプペポ".toList

def isVoicing (c : Char) : Bool := c == '\u3099' || c == '\u309A'

/-- Marks that stand behind one for voicing, whatever order they come in. -/
def late : List Nat :=
  [0x5B4, 0x5B7, 0x5B8, 0x5B9, 0x5BC, 0x5BF, 0x5C1, 0x5C2, 0x64B, 0x64E, 0x64F, 0x650, 0x651, 0x652,
   0x670]

def syllable? (m n : Nat) : Option Char :=
  if 0x1100 ≤ m && m < 0x1113 && 0x1161 ≤ n && n < 0x1176 then
    some (Char.ofNat (0xAC00 + ((m - 0x1100) * 21 + (n - 0x1161)) * 28))
  else if 0xAC00 ≤ m && m < 0xD7A4 && (m - 0xAC00) % 28 == 0 && 0x11A8 ≤ n && n < 0x11C3 then
    some (Char.ofNat (m + n - 0x11A7))
  else none

def joined? (c d : Char) : Option Char :=
  if d == '\u3099' then voiced.lookup c
  else if d == '\u309A' then plosive.lookup c
  else syllable? c.toNat d.toNat

def push : List Char → Char → List Char
  | [], c => [c]
  | d :: cs, c =>
      match joined? d c with
      | some e => e :: cs
      | none => if isVoicing c && late.contains d.toNat then d :: push cs c else c :: d :: cs

def isAscii (s : String) : Bool := s.toList.all (·.toNat < 128)

/-- The name that the generated code means by a name. -/
def normalize (s : String) : String :=
  if isAscii s then s
  else String.ofList ((s.toList.flatMap image).foldl push []).reverse

@[simp]
theorem normalize_ascii {s : String} (h : isAscii s = true) : normalize s = s := if_pos h

end Sumi.Text.Compatibility

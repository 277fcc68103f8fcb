import Gml.Unicode.Mark

/-!
# Composed characters

Many characters with marks can be written as one code point or as several. Here every
text gets the one form in which as much as possible is composed: all characters are
taken apart, the marks after each character are put into the order of their classes, and
then everything is composed again. A syllable of Hangul is composed of its letters by
counting; the other compositions are in a table, which covers the characters that may
occur in domain names.
-/
namespace Gml.Unicode

/-- For a second character, the first characters that it combines with, each followed
by what comes out. -/
def compositions : List (Nat × String) :=
  [(0x300, "aàeèiìnǹoòuùwẁyỳâầêềôồüǜăằēḕōṑơờưừαὰεὲηὴιὶοὸ"),
   (0x300, "υὺωὼϊῒϋῢеѐиѝἀἂἁἃἐἒἑἓἠἢἡἣἰἲἱἳὀὂὁὃὐὒὑὓὠὢὡὣ"),
   (0x301, "aácćeégǵiíkḱlĺmḿnńoópṕrŕsśuúwẃyýzźâấåǻæǽçḉêế"),
   (0x301, "ïḯôốõṍøǿüǘăắēḗōṓũṹơớưứαάεέηήιίοόυύωώϊΐϋΰгѓкќ"), (0x301, "ἀἄἁἅἐἔἑἕἠἤἡἥἰἴἱἵὀὄὁὅὐὔὑὕὠὤὡὥ"),
   (0x302, "aâcĉeêgĝhĥiîjĵoôsŝuûwŵyŷzẑạậẹệọộ"), (0x303, "aãeẽiĩnñoõuũvṽyỹâẫêễôỗăẵơỡưữ"),
   (0x304, "aāeēgḡiīoōuūyȳäǟæǣõȭöȫüǖǫǭȧǡȯȱαᾱιῑυῡиӣуӯḷḹṛṝ"),
   (0x306, "aăeĕgğiĭoŏuŭȩḝαᾰιῐυῠаӑеӗжӂийуўạặ"),
   (0x307, "aȧbḃcċdḋeėfḟgġhḣmṁnṅoȯpṗrṙsṡtṫwẇxẋyẏzżśṥšṧṣṩ"), (0x307, "𐗒𐗉𐗚𐗤"),
   (0x308, "aäeëhḧiïoötẗuüwẅxẍyÿõṏūṻιϊυϋаӓеёжӝзӟиӥоӧуӱчӵ"), (0x308, "ыӹэӭіїәӛөӫ"),
   (0x309, "aảeẻiỉoỏuủyỷâẩêểôổăẳơởưử"), (0x30A, "aåuůwẘyẙ"), (0x30B, "oőuűуӳ"),
   (0x30C, "aǎcčdďeěgǧhȟiǐjǰkǩlľnňoǒrřsštťuǔzžüǚʒǯ"), (0x30F, "aȁeȅiȉoȍrȑuȕѵѷ"),
   (0x311, "aȃeȇiȋoȏrȓuȗ"), (0x313, "αἀεἐηἠιἰοὀρῤυὐωὠ"), (0x314, "αἁεἑηἡιἱοὁρῥυὑωὡ"),
   (0x31B, "oơuư"), (0x323, "aạbḅdḍeẹhḥiịkḳlḷmṃnṇoọrṛsṣtṭuụvṿwẉyỵzẓơợưự"), (0x324, "uṳ"),
   (0x325, "aḁ"), (0x326, "sștț"), (0x327, "cçdḑeȩgģhḩkķlļnņrŗsştţ"), (0x328, "aąeęiįoǫuų"),
   (0x32D, "dḓeḙlḽnṋtṱuṷ"), (0x32E, "hḫ"), (0x330, "eḛiḭuṵ"), (0x331, "bḇdḏhẖkḵlḻnṉrṟtṯzẕ"),
   (0x338, "<≮=≠>≯←↚→↛↔↮⇐⇍⇒⇏⇔⇎∃∄∈∉∋∌∣∤∥∦∼≁≃≄≅≇≈≉≍≭≡≢≤≰≥≱"),
   (0x338, "≲≴≳≵≶≸≷≹≺⊀≻⊁≼⋠≽⋡⊂⊄⊃⊅⊆⊈⊇⊉⊑⋢⊒⋣⊢⊬⊨⊭⊩⊮⊫⊯⊲⋪⊳⋫⊴⋬⊵⋭"),
   (0x342, "αᾶηῆιῖυῦωῶϊῗϋῧἀἆἁἇἠἦἡἧἰἶἱἷὐὖὑὗὠὦὡὧ"), (0x653, "اآ"), (0x654, "اأوؤيئہۂےۓەۀ"),
   (0x655, "اإ"), (0x93C, "नऩरऱळऴ"), (0x9BE, "\u09c7\u09cb"), (0x9D7, "\u09c7\u09cc"),
   (0xB3E, "\u0b47\u0b4b"), (0xB56, "\u0b47\u0b48"), (0xB57, "\u0b47\u0b4c"),
   (0xBBE, "\u0bc6\u0bca\u0bc7\u0bcb"), (0xBD7, "ஒஔ\u0bc6\u0bcc"), (0xC56, "\u0c46\u0c48"),
   (0xCC2, "\u0cc6\u0cca"), (0xCD5, "\u0cbf\u0cc0\u0cc6\u0cc7\u0cca\u0ccb"),
   (0xCD6, "\u0cc6\u0cc8"), (0xD3E, "\u0d46\u0d4a\u0d47\u0d4b"), (0xD57, "\u0d46\u0d4c"),
   (0xDCA, "\u0dd9\u0dda\u0ddc\u0ddd"), (0xDCF, "\u0dd9\u0ddc"), (0xDDF, "\u0dd9\u0dde"),
   (0x102E, "ဥဦ"),
   (0x1B35, "ᬅᬆᬇᬈᬉᬊᬋᬌᬍᬎᬑᬒ\u1b3a\u1b3b\u1b3c\u1b3d\u1b3e\u1b40\u1b3f\u1b41\u1b42\u1b43"),
   (0x3099, "うゔかがきぎくぐけげこごさざしじすずせぜそぞただちぢつづてでとどはばひびふぶへべほぼゝゞ"),
   (0x3099, "ウヴカガキギクグケゲコゴサザシジスズセゼソゾタダチヂツヅテデトドハバヒビフブヘベホボワヷ"), (0x3099, "ヰヸヱヹヲヺヽヾ"),
   (0x309A, "はぱひぴふぷへぺほぽハパヒピフプヘペホポ"), (0x110BA, "𑂙𑂚𑂛𑂜𑂥𑂫"), (0x11127, "𑄱𑄮𑄲𑄯"), (0x1133E, "𑍇𑍋"),
   (0x11357, "𑍇𑍌"), (0x113B8, "𑏅𑎸"), (0x113BB, "𑎄𑎅"), (0x113C2, "𑎋𑎎𑏅𑏂"), (0x113C9, "𑎂𑎃𑎐𑎑𑏅𑏉"),
   (0x114B0, "𑒹𑒼"), (0x114BA, "𑒹𑒻"), (0x114BD, "𑒹𑒾"), (0x115AF, "𑖸𑖺𑖹𑖻"), (0x11930, "𑤵𑤸"),
   (0x1611E, "𖄡𖄞"), (0x1611F, "𖄦𖄡𖄦𖄢𖄧𖄩𖄤"), (0x16120, "𖄨𖄡𖄨"), (0x16129, "𖄡𖄩"), (0x16D67, "𖵣𖵪𖵨𖵩𖵪")]

/-! ### Hangul -/

/-- A syllable of two letters or, with a third, of three. -/
def composeSyllable? (first second : Char) : Option Char :=
  let a := first.toNat
  let b := second.toNat
  if 0x1100 ≤ a && a < 0x1113 && 0x1161 ≤ b && b < 0x1176 then
    some (Char.ofNat (0xAC00 + ((a - 0x1100) * 21 + (b - 0x1161)) * 28))
  else if 0xAC00 ≤ a && a < 0xD7A4 && (a - 0xAC00) % 28 == 0 && 0x11A7 < b && b < 0x11C3 then
    some (Char.ofNat (a + (b - 0x11A7)))
  else none

def syllableLetters? (c : Char) : Option (List Char) :=
  if 0xAC00 ≤ c.toNat && c.toNat < 0xD7A4 then
    let n := c.toNat - 0xAC00
    let third := if n % 28 == 0 then [] else [Char.ofNat (0x11A7 + n % 28)]
    some (Char.ofNat (0x1100 + n / 588) :: Char.ofNat (0x1161 + n % 588 / 28) :: third)
  else none

/-! ### Taking apart -/

/-- The first character that a composed one consists of. -/
def firstOf? (c : Char) : List Char → Option Char
  | first :: composed :: rest => if composed = c then some first else firstOf? c rest
  | _ => none

def parts? (c : Char) : Option (Char × Char) :=
  compositions.findSome? fun (second, pairs) =>
    (firstOf? c pairs.toList).map (·, Char.ofNat second)

/-- A character taken apart; the first of its parts may be composed itself, up to a
number of times. -/
def decomposeChar : Nat → Char → List Char
  | 0, c => [c]
  | rounds + 1, c =>
      if c.toNat < 0xC0 then [c]
      else
        match syllableLetters? c, parts? c with
        | some letters, _ => letters
        | none, some (first, second) => decomposeChar rounds first ++ [second]
        | none, none => [c]

/-- No character is composed in more steps than this. -/
def compositionDepth : Nat := 4

def decompose (cs : List Char) : List Char := cs.flatMap (decomposeChar compositionDepth)

/-! ### Order of marks -/

/-- Puts a mark behind the marks of its class and before those of higher classes. -/
def insertMark (c : Char) : List Char → List Char
  | [] => [c]
  | d :: rest =>
      if combiningClass c < combiningClass d then c :: d :: rest else d :: insertMark c rest

/-- Orders the marks between two characters without a class; the first argument holds
those since the last one. -/
def orderMarks : List Char → List Char → List Char
  | marks, [] => marks
  | marks, c :: rest =>
      if combiningClass c == 0 then marks ++ c :: orderMarks [] rest
      else orderMarks (insertMark c marks) rest

/-! ### Composing -/

/-- What a first character becomes with a second. -/
def composedOf? (first : Char) : List Char → Option Char
  | other :: composed :: rest => if other = first then some composed else composedOf? first rest
  | _ => none

def composePair? (first second : Char) : Option Char :=
  (composeSyllable? first second).orElse fun _ =>
    compositions.findSome? fun (mark, pairs) =>
      if mark == second.toNat then composedOf? first pairs.toList else none

/-- A character that later ones may combine with, and the marks behind it that did
not, the last one first. -/
structure Cluster where
  start : Char
  marks : List Char := []

def Cluster.toList (cluster : Cluster) : List Char := cluster.start :: cluster.marks.reverse

/-- Combines a character with a cluster, unless a mark of its class stands between. -/
def Cluster.join? (cluster : Cluster) (c : Char) : Option Cluster :=
  let free := match cluster.marks with
    | [] => true
    | mark :: _ => combiningClass mark < combiningClass c
  if free then (composePair? cluster.start c).map ({ cluster with start := · }) else none

/-- Composes a text behind a cluster. -/
def composeFrom : Cluster → List Char → List Char
  | cluster, [] => cluster.toList
  | cluster, c :: rest =>
      match cluster.join? c with
      | some cluster => composeFrom cluster rest
      | none =>
          if combiningClass c == 0 then cluster.toList ++ composeFrom ⟨c, []⟩ rest
          else composeFrom { cluster with marks := c :: cluster.marks } rest

/-- Composes a text. Marks before the first character without a class stay. -/
def compose (cs : List Char) : List Char :=
  let isLoose (c : Char) : Bool := combiningClass c != 0
  match cs.dropWhile isLoose with
  | [] => cs
  | c :: rest => cs.takeWhile isLoose ++ composeFrom ⟨c, []⟩ rest

def normalize (cs : List Char) : List Char := compose (orderMarks [] (decompose cs))

end Gml.Unicode

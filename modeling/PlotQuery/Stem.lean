/-! The stem of an English word by suffix stripping, as the English Snowball stemmer finds it. That
stemmer is a package from outside, and its steps and tables are written out here as they are
documented. Words are in lower case. A word is cut into two regions, and each step looks for the
longest suffix it knows and replaces it if that suffix lies in the region the step asks for. A marked
`Y` is a letter that does not sound as a vowel.

No general statement about queries and grammars depends on these tables. With another function in
place of `normalForm` only what is evaluated on fixed texts would change. -/
namespace PlotQuery.Stem

/-- A vowel letter. A marked `Y` is not one, nor is any letter outside the English alphabet. -/
def isVowel (c : Char) : Bool :=
  c == 'a' || c == 'e' || c == 'i' || c == 'o' || c == 'u' || c == 'y'

/-- Mark each `y` that follows a vowel. `afterVowel` tells whether the preceding letter is one, and
holds at the start of a word, where a `y` is marked too. -/
def markY (afterVowel : Bool) : List Char → List Char
  | [] => []
  | c :: cs =>
    if afterVowel && c == 'y' then 'Y' :: markY false cs else c :: markY (isVowel c) cs

/-- The number of letters up to and with the first consonant that follows a vowel. -/
def syllableEnd (cs : List Char) : Option Nat :=
  let onset := (cs.takeWhile (!isVowel ·)).length
  let vowels := ((cs.drop onset).takeWhile isVowel).length
  if onset + vowels < cs.length then some (onset + vowels + 1) else none

/-- Where the two regions of a word start. They stay where they are while suffixes are replaced. -/
structure Regions where
  first : Nat
  second : Nat

/-- Whether a suffix with these letters before it lies in the first region. -/
def Regions.inFirst (regions : Regions) (stem : List Char) : Bool :=
  regions.first ≤ stem.length

/-- Whether a suffix with these letters before it lies in the second region. -/
def Regions.inSecond (regions : Regions) (stem : List Char) : Bool :=
  regions.second ≤ stem.length

/-- Word beginnings after which the first region starts at once. -/
def fixedOnsets : List (List Char) :=
  ["gener".toList, "commun".toList, "arsen".toList]

/-- The regions of a word: the first starts after a consonant that follows a vowel, the second after
the next such consonant, and either is empty where there is none. -/
def Regions.ofWord (word : List Char) : Regions :=
  let first :=
    match fixedOnsets.find? (·.isPrefixOf word) with
    | some onset => onset.length
    | none => (syllableEnd word).getD word.length
  let second :=
    match syllableEnd (word.drop first) with
    | some n => first + n
    | none => word.length
  ⟨first, second⟩

/-- Whether the letters before a suffix end in a short syllable. -/
def endsShort (stem : List Char) : Bool :=
  match stem.reverse with
  | c :: b :: a :: _ =>
    !isVowel c && c != 'w' && c != 'x' && c != 'Y' && isVowel b && !isVowel a
  | [c, b] => !isVowel c && isVowel b
  | _ => false

/-- A suffix and what becomes of a word that ends with it, given the letters before the suffix. The
word stays as it is where the rule gives none. -/
structure SuffixRule where
  suffix : List Char
  outcome : List Char → Option (List Char)

/-- Replace the suffix if the letters before it pass the test. -/
def onlyIf (allowed : List Char → Bool) (suffix replacement : String) : SuffixRule where
  suffix := suffix.toList
  outcome stem := if allowed stem then some (stem ++ replacement.toList) else none

def always (suffix replacement : String) : SuffixRule :=
  onlyIf (fun _ => true) suffix replacement

/-- The rule with the longest suffix of the word, and the letters before that suffix. -/
def longest? (rules : List SuffixRule) (word : List Char) : Option (SuffixRule × List Char) :=
  rules.foldl (fun best rule =>
    match rule.suffix.isSuffixOf? word with
    | none => best
    | some stem =>
      match best with
      | some (kept, _) =>
        if kept.suffix.length < rule.suffix.length then some (rule, stem) else best
      | none => some (rule, stem)) none

/-- Apply the rule with the longest suffix. If it gives nothing the word stays as it is: a shorter
suffix is not tried. -/
def replaceSuffix (rules : List SuffixRule) (word : List Char) : List Char :=
  match longest? rules word with
  | some (rule, stem) => (rule.outcome stem).getD word
  | none => word

def endsIn (letters : List Char) (stem : List Char) : Bool :=
  match stem.getLast? with
  | some c => letters.contains c
  | none => false

/-- A possessive ending is dropped. -/
def dropPossessive (word : List Char) : List Char :=
  replaceSuffix [always "'" "", always "'s" "", always "'s'" ""] word

/-- A plural ending is dropped. A single `s` goes only if a vowel stands before the letter that
precedes it. -/
def dropPlural (word : List Char) : List Char :=
  let soften := fun stem : List Char =>
    some (stem ++ if 2 ≤ stem.length then ['i'] else ['i', 'e'])
  replaceSuffix
    [always "sses" "ss", ⟨"ied".toList, soften⟩, ⟨"ies".toList, soften⟩,
     onlyIf (fun stem => stem.dropLast.any isVowel) "s" "", always "us" "us", always "ss" "ss"]
    word

/-- Doubled consonants of which the second goes when an ending has been dropped. -/
def doubles : List (List Char) :=
  ["bb".toList, "dd".toList, "ff".toList, "gg".toList, "mm".toList, "nn".toList, "pp".toList,
   "rr".toList, "tt".toList]

/-- Mend the end of a word that has lost a past or progressive ending. -/
def mendEnd (regions : Regions) (stem : List Char) : List Char :=
  if ["at".toList, "bl".toList, "iz".toList].any (·.isSuffixOf stem) then stem ++ ['e']
  else if doubles.any (·.isSuffixOf stem) then stem.dropLast
  else if stem.length == regions.first && endsShort stem then stem ++ ['e']
  else stem

/-- A past or progressive ending is dropped if a vowel stands before it. The doubled vowel of an
ending in `eed` is kept where the ending lies in the first region. -/
def dropParticiple (regions : Regions) : List Char → List Char :=
  let drop := fun stem : List Char => if stem.any isVowel then some (mendEnd regions stem) else none
  replaceSuffix
    [onlyIf regions.inFirst "eed" "ee", onlyIf regions.inFirst "eedly" "ee",
     ⟨"ed".toList, drop⟩, ⟨"edly".toList, drop⟩, ⟨"ing".toList, drop⟩, ⟨"ingly".toList, drop⟩]

/-- A final `y` becomes an `i` after a consonant that is not the first letter. -/
def softenY (word : List Char) : List Char :=
  match word.reverse with
  | c :: b :: a :: rest =>
    if (c == 'y' || c == 'Y') && !isVowel b then (a :: rest).reverse ++ [b, 'i'] else word
  | _ => word

/-- Compound endings are shortened where they lie in the first region. -/
def shortenCompound (regions : Regions) : List Char → List Char :=
  replaceSuffix <|
    [("tional", "tion"), ("enci", "ence"), ("anci", "ance"), ("abli", "able"), ("entli", "ent"),
     ("izer", "ize"), ("ization", "ize"), ("ational", "ate"), ("ation", "ate"), ("ator", "ate"),
     ("alism", "al"), ("aliti", "al"), ("alli", "al"), ("fulness", "ful"), ("ousli", "ous"),
     ("ousness", "ous"), ("iveness", "ive"), ("iviti", "ive"), ("biliti", "ble"), ("bli", "ble"),
     ("fulli", "ful"), ("lessli", "less")].map
      (fun pair => onlyIf regions.inFirst pair.1 pair.2)
    ++ [onlyIf (fun stem => regions.inFirst stem && endsIn ['l'] stem) "ogi" "og",
        onlyIf (fun stem => regions.inFirst stem
          && endsIn ['c', 'd', 'e', 'g', 'h', 'k', 'm', 'n', 'r', 't'] stem) "li" ""]

/-- Derivational endings are shortened where they lie in the first region. -/
def shortenDerived (regions : Regions) : List Char → List Char :=
  replaceSuffix <|
    [("tional", "tion"), ("ational", "ate"), ("alize", "al"), ("icate", "ic"), ("iciti", "ic"),
     ("ical", "ic"), ("ful", ""), ("ness", "")].map
      (fun pair => onlyIf regions.inFirst pair.1 pair.2)
    ++ [onlyIf (fun stem => regions.inFirst stem && regions.inSecond stem) "ative" ""]

/-- Remaining endings are dropped where they lie in the second region. -/
def dropResidual (regions : Regions) : List Char → List Char :=
  replaceSuffix <|
    ["al", "ance", "ence", "er", "ic", "able", "ible", "ant", "ement", "ment", "ent", "ism", "ate",
     "iti", "ous", "ive", "ize"].map (fun suffix => onlyIf regions.inSecond suffix "")
    ++ [onlyIf (fun stem => regions.inSecond stem && endsIn ['s', 't'] stem) "ion" ""]

/-- A final `e`, and the second of two final `l`, are dropped. -/
def dropFinal (regions : Regions) : List Char → List Char :=
  replaceSuffix
    [onlyIf (fun stem => regions.inSecond stem || (regions.inFirst stem && !endsShort stem)) "e" "",
     onlyIf (fun stem => regions.inSecond stem && endsIn ['l'] stem) "l" ""]

def irregular : List (List Char × List Char) :=
  [("skis", "ski"), ("skies", "sky"), ("dying", "die"), ("lying", "lie"), ("tying", "tie"),
   ("idly", "idl"), ("gently", "gentl"), ("ugly", "ugli"), ("early", "earli"), ("only", "onli"),
   ("singly", "singl"), ("sky", "sky"), ("news", "news"), ("howe", "howe"), ("atlas", "atlas"),
   ("cosmos", "cosmos"), ("bias", "bias"), ("andes", "andes")].map
    fun pair => (pair.1.toList, pair.2.toList)

/-- Words that keep their form once plural endings are dropped. -/
def invariant : List (List Char) :=
  ["inning".toList, "outing".toList, "canning".toList, "herring".toList, "earring".toList,
   "proceed".toList, "exceed".toList, "succeed".toList]

def dropApostrophe (word : List Char) : List Char :=
  match word with
  | c :: cs => if c == '\x27' then cs else word
  | [] => []

/-- The stem of a word that is not irregular and has at least three letters. -/
def regular (word : List Char) : List Char :=
  let marked := markY true (dropApostrophe word)
  let regions := Regions.ofWord marked
  let singular := dropPlural (dropPossessive marked)
  let stem :=
    if invariant.contains singular then singular
    else
      dropFinal regions <| dropResidual regions <| shortenDerived regions <|
        shortenCompound regions <| softenY <| dropParticiple regions singular
  stem.map fun c => if c == 'Y' then 'y' else c

/-- The stem of a word in lower case. Words of one or two letters are their own stem. -/
def ofWord (word : List Char) : List Char :=
  match irregular.lookup word with
  | some stem => stem
  | none => if word.length < 3 then word else regular word

end PlotQuery.Stem

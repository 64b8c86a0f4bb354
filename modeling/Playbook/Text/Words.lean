import Playbook.Text.Stem

/-! # Words of a text

What full-text search compares: the words of a text, without case, without the accents of Latin letters,
and reduced to their stems. Everything but letters and digits stands between words.
-/

namespace Playbook.Text

/-- Blocks of punctuation, symbols and controls outside of ASCII. All else there counts as letters. -/
def markRanges : List (Nat × Nat) :=
  [(0x80, 0xA9), (0xAB, 0xB1), (0xB4, 0xB4), (0xB6, 0xB8), (0xBB, 0xBB), (0xBF, 0xBF), (0xD7, 0xD7),
    (0xF7, 0xF7), (0x2C2, 0x2C5), (0x2D2, 0x2DF), (0x332, 0x36F), (0x2000, 0x206F), (0x20A0, 0x20CF),
    (0x2190, 0x2BFF), (0x2E00, 0x2E7F), (0x3000, 0x3004), (0x3008, 0x3020), (0xFE10, 0xFE6F),
    (0xFF01, 0xFF0F), (0xFF1A, 0xFF20), (0xFFE0, 0xFFFF), (0x1F000, 0x1FAFF), (0xE0000, 0xE01EF)]

/-- Whether a character belongs to words. -/
def isWordPart (c : Char) : Bool :=
  if c.toNat < 128 then c.isAlphanum
  else !markRanges.any (fun r => r.1 ≤ c.toNat && c.toNat ≤ r.2)

/-- Accents that follow their letter; they belong to words and vanish. -/
def isAccent (c : Char) : Bool := 0x300 ≤ c.toNat && c.toNat ≤ 0x331

/-- Letters with the accented forms that count as the same. -/
def letterForms : List (Char × String) :=
  [('a', "ÀÁÂÃÄÅàáâãäåĀāĂăĄą"), ('c', "ÇçĆćĈĉĊċČč"), ('d', "Ďď"), ('e', "ÈÉÊËèéêëĒēĔĕĖėĘęĚě"),
    ('g', "ĜĝĞğĠġĢģ"), ('h', "Ĥĥ"), ('i', "ÌÍÎÏìíîïĨĩĪīĬĭĮįİ"), ('j', "Ĵĵ"), ('k', "Ķķ"), ('l', "ĹĺĻļĽľ"),
    ('n', "ÑñŃńŅņŇň"), ('o', "ÒÓÔÕÖòóôõöŌōŎŏŐő"), ('r', "ŔŕŖŗŘř"), ('s', "ŚśŜŝŞşŠš"), ('t', "ŢţŤť"),
    ('u', "ÙÚÛÜùúûüŨũŪūŬŭŮůŰűŲų"), ('w', "Ŵŵ"), ('y', "ÝýÿŶŷŸ"), ('z', "ŹźŻżŽž"), ('æ', "Æ"), ('ð', "Ð"),
    ('ø', "Ø"), ('þ', "Þ"), ('đ', "Đ"), ('ħ', "Ħ"), ('ŀ', "Ŀ"), ('ł', "Ł"), ('ŋ', "Ŋ"), ('œ', "Œ"),
    ('ŧ', "Ŧ")]

/-- The letter that stands for a character: small, and without accent if it is Latin. -/
def folded (c : Char) : Char :=
  let n := c.toNat
  if n < 128 then c.toLower
  else if (0x391 ≤ n && n ≤ 0x3A9) || (0x410 ≤ n && n ≤ 0x42F) then Char.ofNat (n + 32)
  else if 0x400 ≤ n && n ≤ 0x40F then Char.ofNat (n + 80)
  else ((letterForms.find? (fun f => f.2.toList.contains c)).map (·.1)).getD c

/-- Splits off the words; the first argument is the word that is being read, last character first. -/
def wordsFrom : List Char → List Char → List (List Char)
  | word, [] => if word.isEmpty then [] else [word.reverse]
  | word, c :: rest =>
    if isWordPart c then wordsFrom (folded c :: word) rest
    else if isAccent c && !word.isEmpty then wordsFrom word rest
    else if word.isEmpty then wordsFrom [] rest
    else word.reverse :: wordsFrom [] rest

/-- The words of a text as search compares them. -/
def words (s : List Char) : List (List Char) := (wordsFrom [] s).map stem

end Playbook.Text

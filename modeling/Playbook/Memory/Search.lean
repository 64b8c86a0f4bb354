import Playbook.Memory
import Playbook.Memory.Query

/-! # Full-text search

Which texts a query matches, and how well. The best texts come first: those in which the words of the
query are frequent, more so if the words are rare elsewhere and the text is short.
-/

namespace Playbook

namespace Query

/-! ## Matching -/

def QueryWord.fits (q : QueryWord) (word : List Char) : Bool :=
  if q.isOpen then q.word.isPrefixOf word else q.word == word

/-- Whether a text starts with a phrase. -/
def Phrase.startsAt (p : Phrase) (text : List (List Char)) : Bool :=
  p.words.length ≤ text.length && (p.words.zip text).all (fun w => QueryWord.fits w.1 w.2)

/-- The places of a text where a phrase stands. -/
def Phrase.places (p : Phrase) (text : List (List Char)) : List Nat :=
  (List.range text.length).filter (fun i =>
    (!p.leading || i == 0) && Phrase.startsAt p (text.drop i))

/-- Whether phrases stand together: behind the last of them, each has a place from which no more than the
distance lies between. -/
def together (phrases : List Phrase) (distance : Nat) (text : List (List Char)) : Bool :=
  (phrases.flatMap (fun p => Phrase.places p text)).any (fun last =>
    phrases.all (fun p =>
      (Phrase.places p text).any (fun i => i ≤ last && last ≤ i + p.words.length + distance)))

/-- Whether a query matches the words of a text. -/
def isMatch (text : List (List Char)) : Query → Bool
  | .nothing => false
  | .near phrases distance => together phrases distance text
  | .both a b => isMatch text a && isMatch text b
  | .either a b => isMatch text a || isMatch text b
  | .without a b => isMatch text a && !isMatch text b

/-! ## Ranking -/

/-- The phrases of a query. -/
def phraseList : Query → List Phrase
  | .nothing => []
  | .near phrases _ => phrases
  | .both a b => phraseList a ++ phraseList b
  | .either a b => phraseList a ++ phraseList b
  | .without a b => phraseList a ++ phraseList b

/-- How well a text answers a phrase among all texts: the weight of the phrase grows with its rarity, and
its frequency counts less in longer texts. -/
def phraseScore (texts : List (List (List Char))) (text : List (List Char)) (p : Phrase) : Float :=
  let rows := texts.length.toFloat
  let hits := (texts.countP (fun t => !(Phrase.places p t).isEmpty)).toFloat
  let rarity := Float.log ((rows - hits + 0.5) / (hits + 0.5))
  let weight := if rarity ≤ 0.0 then 0.000001 else rarity
  let average := (texts.foldl (fun n (t : List (List Char)) => n + t.length) 0).toFloat / rows
  let frequency := (Phrase.places p text).length.toFloat
  weight * (frequency * 2.2) /
    (frequency + 1.2 * (0.25 + 0.75 * text.length.toFloat / average))

/-- How well a text answers a query among all texts. -/
def score (q : Query) (texts : List (List (List Char))) (text : List (List Char)) : Float :=
  (q.phraseList.map (phraseScore texts text)).foldl (· + ·) 0.0

end Query

namespace Memory

/-- The entries that match a query, the best first and equally good ones in the order of their age. -/
def matching (m : Memory) (q : Query) : List MemoryEntry :=
  let indexed := m.entries.map (fun e => (e, Text.words e.content.toList))
  let texts := indexed.map (·.2)
  let hits := (indexed.filter (fun p => q.isMatch p.2)).map (fun p => (p.1, q.score texts p.2))
  (hits.mergeSort (fun a b => b.2 ≤ a.2)).map (·.1)

/-- The best entries for a query text, at most as many as the limit. -/
def search (m : Memory) (query : String) (limit : Nat) : Except Error (List MemoryEntry) :=
  match Query.parse? query with
  | some q => .ok ((m.matching q).take limit)
  | none => .error (.database "the query is ill-formed")

end Memory

end Playbook

import SpokenArithmetic.Token

/-!
# Vocabulary

The rules that say which spellings belong to which kind of token.  A rule
matches a text at its start, in any mixture of cases.  The longest match wins,
and of matches that are equally long the one whose rule comes first, so that a
keyword is never taken for a name.

How rules compete is the documented behaviour of the lexer generator `logos`,
whose own code is outside this library.  Its longest match is the one here, and
its priorities, which decide between matches that are equally long, are the order
of `rules`.
-/

namespace SpokenArithmetic

/-- Whether a character can open a name. -/
def opensName (c : Char) : Bool :=
  c.isAlpha || c == '_'

/-- Whether a character can continue a name. -/
def continuesName (c : Char) : Bool :=
  c.isAlphanum || c == '_'

/-- Whether a text is a name from end to end. -/
def isName : List Char → Bool
  | c :: rest => opensName c && rest.all continuesName
  | [] => false

/-- A set of spellings in small letters. -/
inductive Pattern where
  /-- One word. -/
  | word (letters : List Char)
  /-- A character that opens a run and the characters that continue it. -/
  | run (opens continues : Char → Bool)

/-- Whether a text begins with a word, in whatever case it is written. -/
def beginsWith : List Char → List Char → Bool
  | [], _ => true
  | letter :: letters, c :: cs => Text.fold c == letter && beginsWith letters cs
  | _ :: _, [] => false

/-- The number of characters at the start of a text that a pattern matches, in
whatever case they are written.  It is zero if the pattern does not match. -/
def Pattern.reach : Pattern → List Char → Nat
  | .word letters, cs => if beginsWith letters cs then letters.length else 0
  | .run opens continues, c :: rest =>
      if opens (Text.fold c) then
        (rest.takeWhile fun d => continues (Text.fold d)).length + 1
      else
        0
  | .run _ _, [] => 0

/-- A match at the start of a text. -/
structure Match where
  kind : Kind
  length : Nat
deriving DecidableEq, Repr

/-- A pattern and the kind of what it matches. -/
structure Rule where
  pattern : Pattern
  kind : Kind

/-- The match of a rule at the start of a text. -/
def Rule.match? (rule : Rule) (cs : List Char) : Option Match :=
  let reach := rule.pattern.reach cs
  if reach = 0 then none else some ⟨rule.kind, reach⟩

namespace Vocabulary

/-- The spellings of an operator. -/
def operatorWords : Operator → List String
  | .add => ["suma", "anade", "añade", "mas", "más"]
  | .subtract => ["resta", "quita", "menos"]
  | .multiply => ["multiplica", "por"]
  | .divide => ["divide"]
  | .power => ["eleva", "potencia"]
  | .root => ["raiz", "raíz"]

/-- The connectors that put one part of a sentence after another. -/
def sequenceWords : List String := ["y", "luego"]

/-- The connectors that tie an operand to what comes before it. -/
def prepositionWords : List String := ["a", "con", "de", "entre"]

/-- The words that name a number. -/
def numberWords : List String :=
  ["cero", "uno", "dos", "tres", "cuatro", "cinco", "seis", "siete", "ocho", "nueve", "diez",
    "once", "doce", "trece", "catorce", "quince", "dieciséis", "dieciseis", "diecisiete",
    "dieciocho", "diecinueve", "veinte", "veintiuno", "veintidós", "veintidos", "veintitrés",
    "veintitres", "veinticuatro", "veinticinco", "veintiséis", "veintiseis", "veintisiete",
    "veintiocho", "veintinueve", "treinta", "cuarenta", "cincuenta", "sesenta", "setenta",
    "ochenta", "noventa", "cien"]

/-- One rule for each of some words. -/
def wordRules (kind : Kind) (words : List String) : List Rule :=
  words.map fun word => ⟨.word word.toList, kind⟩

/-- The rules for words with a fixed meaning. -/
def keywordRules : List Rule :=
  Operator.all.flatMap (fun op => wordRules (.operator op) (operatorWords op)) ++
    wordRules .sequence sequenceWords ++
    wordRules .preposition prepositionWords ++
    wordRules .number numberWords

/-- All rules, those that win a tie before the others. -/
def rules : List Rule :=
  keywordRules ++
    [⟨.run Char.isDigit Char.isDigit, .number⟩,
      ⟨.word [','], .comma⟩,
      ⟨.word ['='], .assign⟩,
      ⟨.run opensName continuesName, .identifier⟩]

/-- The longest match at the start of a text, the first of several. -/
def longest? (cs : List Char) : Option Match :=
  (rules.filterMap (·.match? cs)).maxOn? Match.length

end Vocabulary

/-- A text begins with a word exactly if the word is the shadow of its first
characters. -/
theorem beginsWith_iff (letters cs : List Char) :
    beginsWith letters cs = true ↔ Text.shadow (cs.take letters.length) = letters := by
  induction letters generalizing cs with
  | nil => simp [beginsWith]
  | cons letter letters ih =>
      cases cs with
      | nil => simp [beginsWith]
      | cons c cs => simp [beginsWith, ih]

theorem Rule.length_pos {rule : Rule} {cs : List Char} {found : Match}
    (h : rule.match? cs = some found) : 0 < found.length := by
  unfold Rule.match? at h
  dsimp only at h
  split at h
  · cases h
  · cases h
    exact Nat.pos_of_ne_zero ‹_›

/-- A match takes at least one character. -/
theorem Vocabulary.length_pos {cs : List Char} {found : Match}
    (h : longest? cs = some found) : 0 < found.length := by
  obtain ⟨rule, _, hrule⟩ := List.mem_filterMap.mp (List.maxOn?_mem h)
  exact Rule.length_pos hrule

/-- Nothing matches at the end of a text. -/
@[simp] theorem Vocabulary.longest?_nil : longest? [] = none := by
  decide +kernel

end SpokenArithmetic

import Mathlib.Data.List.Forall2
import SpokenArithmetic.Proofs.Placement
import SpokenArithmetic.Proofs.Soundness
import SpokenArithmetic.Proofs.Wording

/-!
# Keywords in their places

Promotion goes over the tokens from left to right, and a token is promoted in sight
of its neighbours, of which the one in front may have been promoted before.  Yet a
promoted token is neither a sign of assignment nor a comma, and nothing else about
a neighbour matters.  So each token could just as well be decided on by itself, from
the tokens as they were (`promoteKeywords_eq_atOnce`), and tokens that have been
through promotion are as it leaves them (`promoteKeywords_promoteKeywords`).

What is left of a text's keywords follows from the second fact
(`KeywordsInPlace.of_promoteKeywords_eq`).  A connector stands where it can be one.
So does an operator, unless it has a letter that no name has.
-/

namespace SpokenArithmetic
namespace Token

/-- Whether a token is a keyword where only a name can stand, between the tokens
in front of it and behind it. -/
def OnlyName (previous next : Option Token) (token : Token) : Prop :=
  (token.isConnector = true ∨ token.operator?.isSome = true) ∧
    isName token.written.toList = true ∧
      ((∀ other ∈ next, other.kind = .assign ∨ other.kind = .comma) ∨
        token.isConnector = true ∧ ∃ other ∈ previous, other.kind = .assign)

instance (previous next : Option Token) (token : Token) :
    Decidable (token.OnlyName previous next) :=
  inferInstanceAs (Decidable (_ ∧ _ ∧ (_ ∨ _ ∧ _)))

/-- A token as the name that it is spelled like. -/
def asName (token : Token) : Token :=
  { token with kind := .identifier, normalized := token.written }

/-- Whether a token is another one, as it was or as a name. -/
def Renames (token other : Token) : Prop :=
  other.written = token.written ∧ other.span = token.span ∧
    (other = token ∨ other = token.asName)

/-- Some tokens with each keyword a name that can only be one, where every place is
decided on from the tokens as they are. -/
def atOnce (tokens : List Token) : List Token :=
  tokens.mapIdx fun place token =>
    if token.OnlyName (tokens.take place).getLast? tokens[place + 1]? then token.asName else token

/-- What promotion does to some tokens. -/
structure Promotes (tokens promoted : List Token) : Prop where
  at_once : promoted = atOnce tokens
  /-- All tokens keep their texts and their places. -/
  renamed : List.Forall₂ Renames tokens promoted
  again : promoteKeywords promoted = promoted

end Token

/-- Whether no keyword among some tokens stands where only a name can stand, but for
operators that are not spelled like a name. -/
structure KeywordsInPlace (tokens : List Token) : Prop where
  connector_followed : ∀ front token back, tokens = front ++ token :: back →
    token.isConnector = true →
      ∃ next, back.head? = some next ∧ next.kind ≠ .assign ∧ next.kind ≠ .comma
  connector_not_behind : ∀ front sign token back, tokens = front ++ sign :: token :: back →
    sign.kind = .assign → token.isConnector = false
  operator_accented : ∀ front token op back, tokens = front ++ token :: back →
    token.kind = .operator op → (∀ next ∈ back.head?, next.kind = .assign ∨ next.kind = .comma) →
      ∃ c ∈ token.written.toList, 128 ≤ c.toNat

namespace Token

/-! ## One place at a time -/

theorem closes_iff (next : Option Token) :
    closes (next.map kind) = true ↔ ∀ other ∈ next, other.kind = .assign ∨ other.kind = .comma := by
  cases next with
  | none => simp [closes]
  | some other => simp [closes]

/-- A token is promoted exactly if it can only be a name. -/
theorem promote_eq_ite (previous next : Option Token) (token : Token) :
    token.promote (previous.map kind) (next.map kind) =
      if token.OnlyName previous next then token.asName else token := by
  have hprevious : (previous.map kind == some .assign) = true ↔
      ∃ other ∈ previous, other.kind = .assign := by
    rw [beq_iff_eq, Option.map_eq_some_iff]
    rfl
  unfold promote
  refine if_congr ?_ rfl rfl
  rw [Bool.and_eq_true, Bool.and_eq_true, isKeyword, Bool.or_eq_true, Bool.or_eq_true,
    closes_iff, Bool.and_eq_true, hprevious, and_comm (b := token.kind.isConnector = true),
    and_assoc]
  rfl

/-- For the tokens behind it a token counts as it was before. -/
theorem promoteFrom_cons (previous : Option Kind) (token : Token) (rest : List Token) :
    promoteFrom previous (token :: rest) =
      token.promote previous (rest.head?.map kind) :: promoteFrom (some token.kind) rest := by
  rw [promoteFrom, promote]
  split
  · -- A keyword is no sign of assignment, and neither is a name.
    rename_i h
    rw [Bool.and_eq_true, Bool.and_eq_true] at h
    have hassign : some token.kind ≠ some Kind.assign := by
      intro hassign
      have hcloses := closes_of_isKeyword h.1.1
      rw [hassign] at hcloses
      cases hcloses
    have hname : some Kind.identifier ≠ some Kind.assign := by
      decide
    rw [promoteFrom_of_ne_assign hassign]
    exact congrArg _ (promoteFrom_of_ne_assign hname rest)
  · rfl

/-- Behind some token, too, every place can be decided on by itself. -/
theorem promoteFrom_eq_mapIdx (previous : Option Token) (tokens : List Token) :
    promoteFrom (previous.map kind) tokens =
      tokens.mapIdx fun place token =>
        token.promote ((previous.toList ++ tokens.take place).getLast?.map kind)
          (tokens[place + 1]?.map kind) := by
  induction tokens generalizing previous with
  | nil => rfl
  | cons token rest ih =>
      have hbehind : ∀ place, (previous.toList ++ token :: rest.take place).getLast? =
          ([token] ++ rest.take place).getLast? := by
        intro place
        exact List.getLast?_append_of_ne_nil _ (List.cons_ne_nil _ _)
      have hrest := ih (some token)
      rw [promoteFrom_cons, List.mapIdx_cons, List.head?_eq_getElem?]
      congr 1
      · cases previous <;> simp
      · simpa [hbehind] using hrest

/-- Promotion is what is decided on at every place from the tokens before it. -/
theorem promoteKeywords_eq_atOnce (tokens : List Token) :
    promoteKeywords tokens = atOnce tokens := by
  have hplaces := promoteFrom_eq_mapIdx none tokens
  simp only [promote_eq_ite] at hplaces
  exact hplaces

/-- What has been decided on once is decided on in the same way again. -/
theorem promote_promote (previous : Option Kind) {next next' : Option Kind}
    (h : closes next' = closes next) (token : Token) :
    (token.promote previous next).promote previous next' = token.promote previous next := by
  by_cases hpromoted : (token.isKeyword && isName token.written.toList &&
      (closes next || previous == some .assign && token.kind.isConnector)) = true
  · have hname : token.promote previous next = token.asName := if_pos hpromoted
    rw [hname]
    exact if_neg Bool.false_ne_true
  · have hkept : ∀ next', closes next' = closes next → token.promote previous next' = token := by
      intro next' hcloses
      rw [← hcloses] at hpromoted
      exact if_neg hpromoted
    rw [hkept next rfl, hkept next' h]

theorem promoteFrom_promoteFrom (previous : Option Kind) (tokens : List Token) :
    promoteFrom previous (promoteFrom previous tokens) = promoteFrom previous tokens := by
  induction tokens generalizing previous with
  | nil => rfl
  | cons token rest ih =>
      have hpromote := promote_promote previous
        (closes_head?_promoteFrom (some (token.promote previous (rest.head?.map kind)).kind) rest)
        token
      simp only [promoteFrom, hpromote, ih]

theorem promoteKeywords_promoteKeywords (tokens : List Token) :
    promoteKeywords (promoteKeywords tokens) = promoteKeywords tokens :=
  promoteFrom_promoteFrom none tokens

theorem renames_promote (previous next : Option Kind) (token : Token) :
    Renames token (token.promote previous next) := by
  refine ⟨written_promote .., span_promote .., ?_⟩
  unfold promote
  split
  · exact Or.inr rfl
  · exact Or.inl rfl

theorem renames_promoteFrom (previous : Option Kind) (tokens : List Token) :
    List.Forall₂ Renames tokens (promoteFrom previous tokens) := by
  induction tokens generalizing previous with
  | nil => exact .nil
  | cons token rest ih => exact .cons (renames_promote ..) (ih _)

theorem promotes (tokens : List Token) : Promotes tokens (promoteKeywords tokens) where
  at_once := promoteKeywords_eq_atOnce tokens
  renamed := renames_promoteFrom none tokens
  again := promoteKeywords_promoteKeywords tokens

/-- Among tokens that promotion leaves as they are, no keyword can only be a name. -/
theorem not_onlyName_of_promoteKeywords_eq {tokens : List Token}
    (h : promoteKeywords tokens = tokens) {front back : List Token} {token : Token}
    (hsplit : tokens = front ++ token :: back) :
    ¬ token.OnlyName front.getLast? back.head? := by
  intro honly
  have hplace : tokens[front.length]? = some token := by
    rw [hsplit]
    simp
  have hfront : tokens.take front.length = front := by
    rw [hsplit, List.take_left]
  have hback : tokens[front.length + 1]? = back.head? := by
    rw [hsplit, List.getElem?_append_right (Nat.le_add_right ..), Nat.add_sub_cancel_left,
      List.getElem?_cons_succ, List.head?_eq_getElem?]
  have honce : (atOnce tokens)[front.length]? = some token.asName := by
    rw [atOnce, List.getElem?_mapIdx, hplace, hfront, hback, Option.map_some, if_pos honly]
  rw [← promoteKeywords_eq_atOnce, h, hplace, Option.some.injEq] at honce
  -- A name is no keyword.
  rw [honce] at honly
  rcases honly.1 with hconnector | hoperator
  · cases hconnector
  · cases hoperator

end Token

/-! ## Keywords of a text -/

/-- Whether a text is spelled like a name or is the one of an operator that is not. -/
def Kind.SpelledAs (kind : Kind) (text : List Char) : Prop :=
  isName text = true ∨ kind.operator?.isSome = true ∧ ∃ c ∈ text, 128 ≤ c.toNat

theorem Spells.spelledAs {kind : Kind} {text : List Char} (h : Spells kind text)
    (hkeyword : (kind.isConnector || kind.operator?.isSome) = true) : kind.SpelledAs text := by
  rcases h.isName_or_accented with (rfl | rfl) | ⟨rfl, -⟩ | hname | ⟨hconnector, haccent⟩
  · cases hkeyword
  · cases hkeyword
  · cases hkeyword
  · exact Or.inl hname
  · rw [hconnector, Bool.false_or] at hkeyword
    exact Or.inr ⟨hkeyword, haccent⟩

namespace Token

/-- Whether a token is spelled like a keyword of its kind, if it is a keyword. -/
def KeywordSpelled (token : Token) : Prop :=
  token.isKeyword = true → token.kind.SpelledAs token.written.toList

theorem KeywordSpelled.promote {token : Token} (h : token.KeywordSpelled)
    (previous next : Option Kind) : (token.promote previous next).KeywordSpelled := by
  rcases (renames_promote previous next token).2.2 with hkept | hname
  · rwa [hkept]
  · rw [hname]
    intro hkeyword
    cases hkeyword

/-- Connectors have no accents. -/
theorem KeywordSpelled.isName {token : Token} (h : token.KeywordSpelled)
    (hconnector : token.isConnector = true) : isName token.written.toList = true := by
  rcases h (Bool.or_eq_true_iff.mpr (Or.inl hconnector)) with hname | ⟨hoperator, -⟩
  · exact hname
  · obtain ⟨op, hop⟩ := Option.isSome_iff_exists.mp hoperator
    have hkind := (Kind.operator?_eq_some_iff token.kind op).mp hop
    rw [Reading.isConnector_of_operator hkind] at hconnector
    cases hconnector

end Token

open Token in
theorem Transcript.keywordSpelled_ofSource (source : String) :
    ∀ token ∈ (ofSource source).tokens, token.KeywordSpelled := by
  refine forall_promoteFrom KeywordSpelled.promote (fun token hmem hkeyword => ?_) none
  obtain ⟨lexeme, hlexeme, hkind, -, hwritten⟩ := exists_of_mem_ofLexemes hmem
  rw [isKeyword, hkind] at hkeyword
  rw [hkind, hwritten, String.toList_ofList]
  rcases Lexeme.mem_of_mem_mergeCompounds hlexeme with hscanned | hnumber
  · exact ((Scan.cut_ofText _).1.spells lexeme hscanned).spelledAs hkeyword
  · rw [hnumber] at hkeyword
    cases hkeyword

open Token in
/-- Where promotion has nothing to do, no keyword is out of its place. -/
theorem KeywordsInPlace.of_promoteKeywords_eq {tokens : List Token}
    (h : promoteKeywords tokens = tokens) (hspelled : ∀ token ∈ tokens, token.KeywordSpelled) :
    KeywordsInPlace tokens := by
  have honly : ∀ {front token back}, tokens = front ++ token :: back →
      ¬ token.OnlyName front.getLast? back.head? := not_onlyName_of_promoteKeywords_eq h
  refine
    { connector_followed := ?connector_followed
      connector_not_behind := ?connector_not_behind
      operator_accented := ?operator_accented }
  case connector_followed =>
    intro front token back hsplit hconnector
    have hname := (hspelled token (by simp [hsplit])).isName hconnector
    have hnot := honly hsplit
    cases hnext : back.head? with
    | none => exact absurd ⟨Or.inl hconnector, hname, Or.inl (by simp [hnext])⟩ hnot
    | some next =>
        refine ⟨next, rfl, fun hassign => ?_, fun hcomma => ?_⟩
        · exact hnot ⟨Or.inl hconnector, hname, Or.inl (by simp [hnext, hassign])⟩
        · exact hnot ⟨Or.inl hconnector, hname, Or.inl (by simp [hnext, hcomma])⟩
  case connector_not_behind =>
    intro front sign token back hsplit hsign
    rw [← Bool.not_eq_true]
    intro hconnector
    have hname := (hspelled token (by simp [hsplit])).isName hconnector
    rw [List.append_cons] at hsplit
    exact honly hsplit ⟨Or.inl hconnector, hname, Or.inr ⟨hconnector, sign, by simp, hsign⟩⟩
  case operator_accented =>
    intro front token op back hsplit hkind hcloses
    have hoperator : token.operator?.isSome = true := by
      rw [operator?, hkind]
      rfl
    rcases hspelled token (by simp [hsplit]) (Bool.or_eq_true_iff.mpr (Or.inr hoperator)) with
      hname | ⟨-, haccent⟩
    · exact absurd ⟨Or.inr hoperator, hname, Or.inl hcloses⟩ (honly hsplit)
    · exact haccent

/-- Promotion could decide on all places at once, and has nothing to do a second time.
Behind it the keywords of a text are in their places. -/
theorem keywords_in_place :
    (∀ tokens, Token.Promotes tokens (Token.promoteKeywords tokens)) ∧
      ∀ source, KeywordsInPlace (Transcript.ofSource source).tokens := by
  refine ⟨Token.promotes, fun source => ?_⟩
  exact .of_promoteKeywords_eq (Token.promoteKeywords_promoteKeywords _)
    (Transcript.keywordSpelled_ofSource source)

/-- Of two spellings of an operator only the one without an accent can be a name. -/
example : (Transcript.ofSource "y = con, más, mas").tokens.map Token.kind =
    [.identifier, .assign, .identifier, .comma, .operator .add, .comma, .identifier] := by
  decide +kernel

end SpokenArithmetic

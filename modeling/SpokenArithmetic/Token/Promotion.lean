import SpokenArithmetic.Vocabulary

/-!
# Keywords that serve as names

A keyword that stands where only a name can stand is read as a name, so that
`y = 5, z = y` assigns to a variable called `y` and then reads it.  A keyword
before a sign of assignment, before a comma or at the end stands there, and so
does a connector behind a sign of assignment.  It is promoted only if it is
spelled like a name, which leaves out the words with an accent.
-/

namespace SpokenArithmetic
namespace Token

/-- Whether a token has a meaning of its own beside that of a name. -/
def isKeyword (token : Token) : Bool :=
  token.kind.isConnector || token.kind.operator?.isSome

/-- Whether nothing that a keyword could apply to follows, where `next` is the
kind of the token that follows. -/
def closes (next : Option Kind) : Bool :=
  match next with
  | none => true
  | some kind => kind == .assign || kind == .comma

/-- A token between its neighbours, as a name if only a name can stand there. -/
def promote (previous next : Option Kind) (token : Token) : Token :=
  if token.isKeyword && isName token.written.toList &&
      (closes next || previous == some .assign && token.kind.isConnector) then
    { token with kind := .identifier, normalized := token.written }
  else
    token

/-- The promotion of all tokens from left to right, where `previous` is the
kind of the promoted token in front of them. -/
def promoteFrom (previous : Option Kind) : List Token → List Token
  | [] => []
  | token :: rest =>
      let promoted := token.promote previous (rest.head?.map Token.kind)
      promoted :: promoteFrom (some promoted.kind) rest

/-- The tokens of a sentence, with each keyword that can only be a name
promoted. -/
def promoteKeywords (tokens : List Token) : List Token :=
  promoteFrom none tokens

/-- Promotion keeps the text and its place. -/
@[simp] theorem written_promote (previous next : Option Kind) (token : Token) :
    (token.promote previous next).written = token.written := by
  unfold promote
  split <;> rfl

@[simp] theorem span_promote (previous next : Option Kind) (token : Token) :
    (token.promote previous next).span = token.span := by
  unfold promote
  split <;> rfl

/-- A promoted token is a name. -/
theorem kind_promote (previous next : Option Kind) (token : Token) :
    (token.promote previous next).kind = token.kind ∨
      (token.promote previous next).kind = .identifier := by
  unfold promote
  split
  · exact Or.inr rfl
  · exact Or.inl rfl

/-- A number is no keyword, so that it stays as it is. -/
theorem promote_of_number {token : Token} (h : token.kind = .number) (previous next : Option Kind) :
    token.promote previous next = token := by
  simp [promote, isKeyword, h, Kind.isConnector, Kind.operator?]

@[simp] theorem length_promoteFrom (previous : Option Kind) (tokens : List Token) :
    (promoteFrom previous tokens).length = tokens.length := by
  induction tokens generalizing previous with
  | nil => rfl
  | cons token rest ih => simp [promoteFrom, ih]

/-- What promotion preserves in a token holds of all tokens behind it. -/
theorem forall_promoteFrom {P : Token → Prop}
    (hpromote : ∀ {token : Token}, P token → ∀ previous next, P (token.promote previous next))
    {tokens : List Token} (h : ∀ token ∈ tokens, P token) (previous : Option Kind) :
    ∀ token ∈ promoteFrom previous tokens, P token := by
  induction tokens generalizing previous with
  | nil => simp [promoteFrom]
  | cons token rest ih =>
      obtain ⟨htoken, hrest⟩ := List.forall_mem_cons.mp h
      exact List.forall_mem_cons.mpr ⟨hpromote htoken _ _, ih hrest _⟩

/-- A change that keeps the kinds of tokens is seen behind promotion as it is seen in
each token. -/
theorem map_promoteFrom_map {α : Type} {change : Token → Token} {seen seen' : Token → α}
    (hkind : ∀ token, (change token).kind = token.kind)
    (hpromoted : ∀ previous next token,
      ((change token).promote previous next).kind = (token.promote previous next).kind)
    (hseen : ∀ previous next token,
      seen' ((change token).promote previous next) = seen (token.promote previous next))
    (previous : Option Kind) (tokens : List Token) :
    (promoteFrom previous (tokens.map change)).map seen' =
      (promoteFrom previous tokens).map seen := by
  induction tokens generalizing previous with
  | nil => rfl
  | cons token rest ih =>
      have hnext : (rest.map change).head?.map kind = rest.head?.map kind := by
        cases rest with
        | nil => rfl
        | cons next rest => exact congrArg some (hkind next)
      simp only [List.map_cons, promoteFrom, hnext, hpromoted, hseen, ih]

/-- A change that keeps the kinds of tokens and commutes with the promotion of each
commutes with that of all. -/
theorem promoteFrom_map {change : Token → Token} (hkind : ∀ token, (change token).kind = token.kind)
    (hpromote : ∀ previous next token,
      (change token).promote previous next = change (token.promote previous next))
    (previous : Option Kind) (tokens : List Token) :
    promoteFrom previous (tokens.map change) = (promoteFrom previous tokens).map change := by
  have hmap : (promoteFrom previous (tokens.map change)).map id =
      (promoteFrom previous tokens).map change := by
    refine map_promoteFrom_map hkind (fun previous next token => ?_) hpromote previous tokens
    rw [hpromote, hkind]
  rwa [List.map_id] at hmap

end Token
end SpokenArithmetic

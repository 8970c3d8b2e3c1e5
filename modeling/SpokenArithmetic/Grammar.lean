import SpokenArithmetic.Token
import SpokenArithmetic.Tree

/-!
# Grammar

The sentences of the language and the trees that they stand for, without a
reading order.

    sentence  := statement (comma statement)*
    statement := name assign operation | operation
    operation := term (connector* operator connector* operation)*
    term      := number | name
               | operator connector* operation
               | operator connector* operation connector* operation

The third form of a term is for an operator of arity one and the fourth for
one of arity two.  The grammar is ambiguous, since an operator behind a
complete operation may continue it or open the next operand.
-/

namespace SpokenArithmetic
namespace Grammar

/-- A run of connectors, which may be empty. -/
def Filler (tokens : List Token) : Prop :=
  ∀ token ∈ tokens, token.isConnector = true

mutual

/-- The tokens of a term and the tree they stand for. -/
inductive Term : List Token → Tree → Prop where
  | number {token : Token} (hkind : token.kind = .number) :
      Term [token] (.number token.normalized token.written)
  | identifier {token : Token} (hkind : token.kind = .identifier) :
      Term [token] (.identifier token.normalized)
  | unary {sign : Token} {op : Operator} {filler tokens : List Token} {operand : Tree}
      (hsign : sign.kind = .operator op) (harity : op.arity = 1)
      (hfiller : Filler filler) (hoperand : Operation tokens operand) :
      Term (sign :: (filler ++ tokens)) (.unary op operand)
  | binary {sign : Token} {op : Operator} {filler front filler' back : List Token}
      {left right : Tree} (hsign : sign.kind = .operator op) (harity : op.arity = 2)
      (hfiller : Filler filler) (hleft : Operation front left)
      (hfiller' : Filler filler') (hright : Operation back right) :
      Term (sign :: (filler ++ front ++ filler' ++ back)) (.binary op left right)

/-- The tokens of an operation and the tree they stand for.  Each operator
behind the first term takes all that comes before it as its left operand. -/
inductive Operation : List Token → Tree → Prop where
  | term {tokens : List Token} {tree : Tree} (hterm : Term tokens tree) :
      Operation tokens tree
  | continued {sign : Token} {op : Operator} {front filler filler' back : List Token}
      {left right : Tree} (hleft : Operation front left) (hfiller : Filler filler)
      (hsign : sign.kind = .operator op) (hfiller' : Filler filler')
      (hright : Operation back right) :
      Operation (front ++ filler ++ sign :: (filler' ++ back)) (.binary op left right)

end

/-- The tokens of a statement and the tree they stand for. -/
inductive Statement : List Token → Tree → Prop where
  | assignment {target sign : Token} {tokens : List Token} {value : Tree}
      (htarget : target.kind = .identifier) (hsign : sign.kind = .assign)
      (hvalue : Operation tokens value) :
      Statement (target :: sign :: tokens) (.assignment target.written value)
  | operation {tokens : List Token} {tree : Tree} (h : Operation tokens tree) :
      Statement tokens tree

/-- The tokens of a sentence and the trees of its statements in order. -/
inductive Sentence : List Token → List Tree → Prop where
  | last {tokens : List Token} {tree : Tree} (h : Statement tokens tree) :
      Sentence tokens [tree]
  | cons {separator : Token} {tokens rest : List Token} {tree : Tree} {trees : List Tree}
      (h : Statement tokens tree) (hseparator : separator.kind = .comma)
      (hrest : Sentence rest trees) :
      Sentence (tokens ++ separator :: rest) (tree :: trees)

@[simp] theorem filler_nil : Filler [] := by
  simp [Filler]

theorem filler_cons {token : Token} {tokens : List Token} :
    Filler (token :: tokens) ↔ token.isConnector = true ∧ Filler tokens := by
  simp [Filler]

end Grammar
end SpokenArithmetic

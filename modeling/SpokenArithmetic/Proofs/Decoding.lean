import SpokenArithmetic.Analysis
import SpokenArithmetic.Proofs.Clause
import SpokenArithmetic.Proofs.Spelling
import SpokenArithmetic.Proofs.Wording

/-!
# Reading a printed tree back

A tree is printed with each operator in front of its operands, and the root is
printed with one operand or with two.  The printed form still determines the tree
up to how its numbers were written (`Reading.render_eq_render_iff`).  Each inner
node is in parentheses of its own, and behind an operand stands a parenthesis, a
space or nothing, which can neither continue a number nor a name.  So a printed
tree ends at the same place whatever follows it (`Printable.render_append_inj`).
This rests on what the leaves of a tree look like: numbers are digits, and names
are names.
-/

namespace SpokenArithmetic
namespace Tree

/-- A tree with each number written in the digits of its value. -/
def plain : Tree → Tree
  | .number value _ => .number value value
  | .identifier name => .identifier name
  | .unary op operand => .unary op operand.plain
  | .binary op left right => .binary op left.plain right.plain
  | .assignment target value => .assignment target value.plain

/-- How a number was written is not printed. -/
@[simp] theorem render_plain (tree : Tree) : tree.plain.render = tree.render := by
  induction tree with
  | number value text => rfl
  | identifier name => rfl
  | unary op operand ih => rw [plain, render, render, ih]
  | binary op left right ihleft ihright => rw [plain, render, render, ihleft, ihright]
  | assignment target value ih => rw [plain, render, render, ih]

/-- The trees of operations whose numbers are digits and whose names are names. -/
inductive Printable : Tree → Prop where
  | number {value : String} (text : String) (h : IsDigits value) : Printable (.number value text)
  | identifier {name : String} (h : isName name.toList = true) : Printable (.identifier name)
  | unary (op : Operator) {operand : Tree} (h : Printable operand) : Printable (.unary op operand)
  | binary (op : Operator) {left right : Tree} (hleft : Printable left)
      (hright : Printable right) : Printable (.binary op left right)

/-- Whether no number and no name goes on over some characters. -/
def EndsWord (cs : List Char) : Prop :=
  ∀ c ∈ cs.head?, continuesName c = false

theorem endsWord_nil : EndsWord [] := by
  simp [EndsWord]

theorem endsWord_space (cs : List Char) : EndsWord (' ' :: cs) := by
  have hspace : continuesName ' ' = false := by decide
  simpa [EndsWord] using hspace

theorem endsWord_parenthesis (cs : List Char) : EndsWord (')' :: cs) := by
  have hparenthesis : continuesName ')' = false := by decide
  simpa [EndsWord] using hparenthesis

/-! ## Printed leaves -/

/-- A word ends where the characters of words end. -/
theorem word_append_inj {word word' rest rest' : List Char}
    (hword : ∀ c ∈ word, continuesName c = true) (hword' : ∀ c ∈ word', continuesName c = true)
    (hrest : EndsWord rest) (hrest' : EndsWord rest') (h : word ++ rest = word' ++ rest') :
    word = word' ∧ rest = rest' := by
  have htake : ∀ {word rest : List Char}, (∀ c ∈ word, continuesName c = true) → EndsWord rest →
      (word ++ rest).takeWhile continuesName = word := by
    intro word rest hword hrest
    rw [List.takeWhile_append_of_pos hword]
    cases rest with
    | nil => simp
    | cons c rest => simp [hrest c rfl]
  have hsame : word = word' := by
    rw [← htake hword hrest, h, htake hword' hrest']
  subst hsame
  exact ⟨rfl, List.append_cancel_left h⟩

theorem continuesName_of_isDigits {value : String} (h : IsDigits value) :
    ∀ c ∈ value.toList, continuesName c = true :=
  fun c hc => continuesName_of_isDigit (h.2 c hc)

/-- No run of digits is a name. -/
theorem not_isName_of_isDigits {text : String} (h : IsDigits text) :
    isName text.toList = false := by
  obtain ⟨hne, hdigits⟩ := h
  cases htext : text.toList with
  | nil => exact absurd htext hne
  | cons c rest =>
      have hc := hdigits c (by simp [htext])
      have hopens : ∀ code < 128, (Char.ofNat code).isDigit = true →
          opensName (Char.ofNat code) = false := by
        decide +kernel
      have hname := Text.forall_ascii (P := fun c => c.isDigit = true → opensName c = false)
        hopens (Text.toNat_lt_of_isDigit hc) hc
      simp [isName, hname]

/-! ## The characters of a printed tree -/

theorem toList_render_unary (op : Operator) (operand : Tree) (rest : List Char) :
    (render (.unary op operand)).toList ++ rest =
      '(' :: (op.symbol.toList ++ ' ' :: (operand.render.toList ++ ')' :: rest)) := by
  simp [render]

theorem toList_render_binary (op : Operator) (left right : Tree) (rest : List Char) :
    (render (.binary op left right)).toList ++ rest =
      '(' :: (op.symbol.toList ++
        ' ' :: (left.render.toList ++ ' ' :: (right.render.toList ++ ')' :: rest))) := by
  simp [render]

theorem toList_render_assignment (target : String) (value : Tree) :
    (render (.assignment target value)).toList =
      (render (.identifier target)).toList ++ ' ' :: '=' :: ' ' :: value.render.toList := by
  simp [render]

/-- The characters of a printed number or name. -/
def word? : Tree → Option (List Char)
  | .number value _ => some value.toList
  | .identifier name => some name.toList
  | _ => none

/-- The number or the name that some characters are. -/
def ofWord (word : List Char) : Tree :=
  if isName word then
    .identifier (String.ofList word)
  else
    .number (String.ofList word) (String.ofList word)

namespace Printable

variable {tree tree' : Tree} {word rest rest' : List Char}

theorem word_of_word? (h : Printable tree) (hword : tree.word? = some word) :
    tree.render.toList = word ∧ word ≠ [] ∧ ∀ c ∈ word, continuesName c = true := by
  cases h with
  | number text h =>
      cases hword
      exact ⟨rfl, h.1, continuesName_of_isDigits h⟩
  | identifier h =>
      cases hword
      refine ⟨rfl, fun hnil => ?_, continuesName_of_isName h⟩
      rw [hnil] at h
      cases h
  | unary => cases hword
  | binary => cases hword

/-- A number is never printed like a name. -/
theorem plain_eq_ofWord (h : Printable tree) (hword : tree.word? = some word) :
    tree.plain = ofWord word := by
  cases h with
  | number text h =>
      cases hword
      rw [ofWord, if_neg (by simp [not_isName_of_isDigits h]), String.ofList_toList, plain]
  | identifier h =>
      cases hword
      rw [ofWord, if_pos h, String.ofList_toList, plain]
  | unary => cases hword
  | binary => cases hword

/-- A printed operator stands in parentheses. -/
theorem exists_of_word?_eq_none (h : Printable tree) (hword : tree.word? = none) :
    ∃ inner, tree.render.toList = '(' :: inner := by
  cases h with
  | number => cases hword
  | identifier => cases hword
  | unary op h => exact ⟨_, (List.append_nil _).symm.trans (toList_render_unary op _ [])⟩
  | binary op hleft hright =>
      exact ⟨_, (List.append_nil _).symm.trans (toList_render_binary op _ _ [])⟩

/-- Behind a printed leaf and behind no other tree there is what is behind the
leaf. -/
theorem word_append_inj (h : Printable tree) (h' : Printable tree') (hrest : EndsWord rest)
    (hrest' : EndsWord rest') (hword : tree.word? = some word)
    (heq : tree.render.toList ++ rest = tree'.render.toList ++ rest') :
    tree.plain = tree'.plain ∧ rest = rest' := by
  obtain ⟨hrender, hne, hcontinues⟩ := h.word_of_word? hword
  cases hword' : tree'.word? with
  | some word' =>
      obtain ⟨hrender', -, hcontinues'⟩ := h'.word_of_word? hword'
      rw [hrender, hrender'] at heq
      obtain ⟨rfl, rfl⟩ := Tree.word_append_inj hcontinues hcontinues' hrest hrest' heq
      exact ⟨(h.plain_eq_ofWord hword).trans (h'.plain_eq_ofWord hword').symm, rfl⟩
  | none =>
      obtain ⟨inner, hrender'⟩ := h'.exists_of_word?_eq_none hword'
      obtain ⟨c, behind, rfl⟩ := List.exists_cons_of_ne_nil hne
      rw [hrender, hrender'] at heq
      obtain ⟨rfl, -⟩ := List.cons.inj heq
      have hparenthesis : continuesName '(' = false := by decide
      rw [hcontinues '(' (List.mem_cons_self ..)] at hparenthesis
      cases hparenthesis

theorem word_append_inj_right (h : Printable tree) (h' : Printable tree') (hrest : EndsWord rest)
    (hrest' : EndsWord rest') (hword : tree'.word? = some word)
    (heq : tree.render.toList ++ rest = tree'.render.toList ++ rest') :
    tree.plain = tree'.plain ∧ rest = rest' := by
  obtain ⟨hplain, hbehind⟩ := h'.word_append_inj h hrest' hrest hword heq.symm
  exact ⟨hplain.symm, hbehind.symm⟩

end Printable

/-! ## Printed operators -/

/-- All symbols have the same width. -/
theorem symbol_append_inj {op op' : Operator} {rest rest' : List Char}
    (h : op.symbol.toList ++ rest = op'.symbol.toList ++ rest') : op = op' ∧ rest = rest' := by
  have hlength : op.symbol.toList.length = op'.symbol.toList.length := by
    cases op <;> cases op' <;> decide
  obtain ⟨hsymbol, hrest⟩ := List.append_inj h hlength
  exact ⟨Operator.symbol_injective (String.toList_inj.mp hsymbol), hrest⟩

/-- A printed tree ends at the same place whatever follows it, and up to there it
is the print of one tree only. -/
theorem Printable.render_append_inj {tree tree' : Tree} (h : Printable tree)
    (h' : Printable tree') {rest rest' : List Char} (hrest : EndsWord rest)
    (hrest' : EndsWord rest') (heq : tree.render.toList ++ rest = tree'.render.toList ++ rest') :
    tree.plain = tree'.plain ∧ rest = rest' := by
  induction h generalizing tree' rest rest' with
  | number text hdigits =>
      exact (Printable.number text hdigits).word_append_inj h' hrest hrest' rfl heq
  | identifier hname =>
      exact (Printable.identifier hname).word_append_inj h' hrest hrest' rfl heq
  | @unary op operand hoperand ih =>
      have hunary : Printable (.unary op operand) := .unary op hoperand
      cases h' with
      | number text' hdigits' =>
          exact hunary.word_append_inj_right (.number text' hdigits') hrest hrest' rfl heq
      | identifier hname' =>
          exact hunary.word_append_inj_right (.identifier hname') hrest hrest' rfl heq
      | @unary op' operand' hoperand' =>
          rw [toList_render_unary, toList_render_unary, List.cons_inj_right] at heq
          obtain ⟨rfl, hinner⟩ := symbol_append_inj heq
          obtain ⟨hplain, hbehind⟩ := ih hoperand' (endsWord_parenthesis _)
            (endsWord_parenthesis _) (List.tail_eq_of_cons_eq hinner)
          exact ⟨by rw [plain, plain, hplain], List.tail_eq_of_cons_eq hbehind⟩
      | @binary op' left' right' hleft' hright' =>
          -- Behind its first operand a root with one operand is at its end.
          rw [toList_render_unary, toList_render_binary, List.cons_inj_right] at heq
          obtain ⟨-, hinner⟩ := symbol_append_inj heq
          obtain ⟨-, hbehind⟩ := ih hleft' (endsWord_parenthesis _) (endsWord_space _)
            (List.tail_eq_of_cons_eq hinner)
          simp at hbehind
  | @binary op left right hleft hright ihleft ihright =>
      have hbinary : Printable (.binary op left right) := .binary op hleft hright
      cases h' with
      | number text' hdigits' =>
          exact hbinary.word_append_inj_right (.number text' hdigits') hrest hrest' rfl heq
      | identifier hname' =>
          exact hbinary.word_append_inj_right (.identifier hname') hrest hrest' rfl heq
      | @unary op' operand' hoperand' =>
          rw [toList_render_unary, toList_render_binary, List.cons_inj_right] at heq
          obtain ⟨-, hinner⟩ := symbol_append_inj heq
          obtain ⟨-, hbehind⟩ := ihleft hoperand' (endsWord_space _) (endsWord_parenthesis _)
            (List.tail_eq_of_cons_eq hinner)
          simp at hbehind
      | @binary op' left' right' hleft' hright' =>
          rw [toList_render_binary, toList_render_binary, List.cons_inj_right] at heq
          obtain ⟨rfl, hinner⟩ := symbol_append_inj heq
          obtain ⟨hplain, hbehind⟩ := ihleft hleft' (endsWord_space _) (endsWord_space _)
            (List.tail_eq_of_cons_eq hinner)
          obtain ⟨hplain', hbehind'⟩ := ihright hright' (endsWord_parenthesis _)
            (endsWord_parenthesis _) (List.tail_eq_of_cons_eq hbehind)
          exact ⟨by rw [plain, plain, hplain, hplain'], List.tail_eq_of_cons_eq hbehind'⟩

/-! ## Statements -/

/-- The trees of statements whose numbers are digits and whose names are names. -/
inductive PrintableStatement : Tree → Prop where
  | assignment {target : String} {value : Tree} (htarget : isName target.toList = true)
      (hvalue : Printable value) : PrintableStatement (.assignment target value)
  | operation {tree : Tree} (h : Printable tree) : PrintableStatement tree

/-- An assignment is not printed like an operation, since its target would be all
of that operation. -/
theorem Printable.render_ne_assignment {tree value : Tree} (h : Printable tree) {target : String}
    (htarget : isName target.toList = true) :
    tree.render ≠ (Tree.assignment target value).render := by
  intro heq
  have hlist := congrArg String.toList heq
  rw [toList_render_assignment, ← List.append_nil tree.render.toList] at hlist
  have hbehind := (h.render_append_inj (.identifier htarget) endsWord_nil (endsWord_space _)
    hlist).2
  cases hbehind

/-- Two statements are printed alike only if they are the same but for how their
numbers were written. -/
theorem PrintableStatement.render_inj {tree tree' : Tree} (h : PrintableStatement tree)
    (h' : PrintableStatement tree') (heq : tree.render = tree'.render) :
    tree.plain = tree'.plain := by
  cases h with
  | operation h =>
      cases h' with
      | operation h' =>
          have hlist : tree.render.toList ++ [] = tree'.render.toList ++ [] := by rw [heq]
          exact (h.render_append_inj h' endsWord_nil endsWord_nil hlist).1
      | assignment htarget' hvalue' => exact absurd heq (h.render_ne_assignment htarget')
  | @assignment target value htarget hvalue =>
      cases h' with
      | operation h' => exact absurd heq.symm (h'.render_ne_assignment htarget)
      | @assignment target' value' htarget' hvalue' =>
          have hlist := congrArg String.toList heq
          rw [toList_render_assignment, toList_render_assignment] at hlist
          obtain ⟨hname, hbehind⟩ := (Printable.identifier htarget).render_append_inj
            (.identifier htarget') (endsWord_space _) (endsWord_space _) hlist
          obtain rfl := Tree.identifier.inj hname
          have hrender : value.render.toList ++ [] = value'.render.toList ++ [] := by
            simpa using hbehind
          rw [plain, plain, (hvalue.render_append_inj hvalue' endsWord_nil endsWord_nil hrender).1]

end Tree

/-! ## The trees of a sentence -/

namespace Reading

open SpokenArithmetic.Tree

theorem printable_of_leaf? {token : Token} {tree : Tree} (h : token.leaf? = some tree)
    (hspelled : token.kind.WellSpelled token.normalized) : Printable tree := by
  unfold Token.leaf? at h
  split at h
  · rename_i hkind
    cases h
    rw [hkind] at hspelled
    exact .number _ hspelled
  · rename_i hkind
    cases h
    rw [hkind] at hspelled
    exact .identifier hspelled
  · cases h

theorem Phrase.printable {tokens : List Token} {tree : Tree} (h : Phrase tokens tree)
    (hspelled : ∀ token ∈ tokens, token.kind.WellSpelled token.normalized) : Printable tree := by
  induction h with
  | leaf hleaf _ => exact printable_of_leaf? hleaf (hspelled _ (by simp))
  | continued hleaf _ _ _ _ ih =>
      exact .binary _ (printable_of_leaf? hleaf (hspelled _ (by simp)))
        (ih fun token htoken => hspelled token (by simp [htoken]))
  | unary _ _ _ _ ih => exact .unary _ (ih fun token htoken => hspelled token (by simp [htoken]))
  | binary _ _ _ _ _ _ ihleft ihright =>
      exact .binary _ (ihleft fun token htoken => hspelled token (by simp [htoken]))
        (ihright fun token htoken => hspelled token (by simp [htoken]))

/-- The target of an assignment is a name, since a name is normalized as it is
written. -/
theorem Clause.printable {tokens : List Token} {tree : Tree} (h : Clause Phrase tokens tree)
    (hspelled : ∀ token ∈ tokens, token.kind.WellSpelled token.normalized)
    (hverbatim : ∀ token ∈ tokens, token.Verbatim) : PrintableStatement tree := by
  cases h with
  | @assignment target sign tokens value htarget hsign hvalue =>
      have hname := hspelled target (by simp)
      rw [htarget, hverbatim target (by simp) htarget] at hname
      refine .assignment hname (hvalue.printable fun token htoken => ?_)
      exact hspelled token (by simp [htoken])
  | operation h => exact .operation (h.printable hspelled)

theorem Joined.printable {tokens : List Token} {trees : List Tree} (h : Joined Phrase tokens trees)
    (hspelled : ∀ token ∈ tokens, token.kind.WellSpelled token.normalized)
    (hverbatim : ∀ token ∈ tokens, token.Verbatim) : ∀ tree ∈ trees, PrintableStatement tree := by
  induction h with
  | nil => simp
  | last hclause => simpa using hclause.printable hspelled hverbatim
  | cons hclause _ _ ih =>
      refine List.forall_mem_cons.mpr ⟨?_, ?_⟩
      · exact hclause.printable (fun token htoken => hspelled token (by simp [htoken]))
          fun token htoken => hverbatim token (by simp [htoken])
      · exact ih (fun token htoken => hspelled token (by simp [htoken]))
          fun token htoken => hverbatim token (by simp [htoken])

theorem printable_of_parse {source : String} {trees : List Tree}
    (h : parse (Transcript.ofSource source).tokens = .ok trees) :
    ∀ tree ∈ trees, PrintableStatement tree :=
  (parse_eq_ok_iff.mp h).printable (Transcript.wellSpelled_ofSource source)
    (Transcript.verbatim_ofSource source)

/-- The trees of two sentences are printed alike exactly if they are the same but
for the texts that their numbers were written as. -/
theorem render_eq_render_iff {source source' : String} {trees trees' : List Tree}
    (h : parse (Transcript.ofSource source).tokens = .ok trees)
    (h' : parse (Transcript.ofSource source').tokens = .ok trees') {tree tree' : Tree}
    (htree : tree ∈ trees) (htree' : tree' ∈ trees') :
    tree.render = tree'.render ↔ tree.plain = tree'.plain := by
  constructor
  · exact (printable_of_parse h tree htree).render_inj (printable_of_parse h' tree' htree')
  · intro hplain
    rw [← render_plain tree, hplain, render_plain]

/-- Two ways to say an assignment whose numeral is written in words in one of them
and in digits in the other. -/
theorem render_eq_render_iff_of_numeral :
    parse (Transcript.ofSource "total = Treinta y dos más x").tokens =
        .ok [.assignment "total"
          (.binary .add (.number "32" "Treinta y dos") (.identifier "x"))] ∧
      parse (Transcript.ofSource "total = suma 32 con x").tokens =
        .ok [.assignment "total" (.binary .add (.number "32" "32") (.identifier "x"))] ∧
      ((Tree.assignment "total"
          (.binary .add (.number "32" "Treinta y dos") (.identifier "x"))).render =
        (Tree.assignment "total" (.binary .add (.number "32" "32") (.identifier "x"))).render ↔
          (Tree.assignment "total"
            (.binary .add (.number "32" "Treinta y dos") (.identifier "x"))).plain =
          (Tree.assignment "total"
            (.binary .add (.number "32" "32") (.identifier "x"))).plain) := by
  have hwords : parse (Transcript.ofSource "total = Treinta y dos más x").tokens =
      .ok [.assignment "total"
        (.binary .add (.number "32" "Treinta y dos") (.identifier "x"))] := by
    decide +kernel
  have hdigits : parse (Transcript.ofSource "total = suma 32 con x").tokens =
      .ok [.assignment "total" (.binary .add (.number "32" "32") (.identifier "x"))] := by
    decide +kernel
  exact ⟨hwords, hdigits, render_eq_render_iff hwords hdigits (List.mem_singleton_self _)
    (List.mem_singleton_self _)⟩

end Reading
end SpokenArithmetic

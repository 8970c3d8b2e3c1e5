import Mathlib.Data.List.Induction
import Mathlib.Logic.Relation
import Mathlib.Order.Bounds.Basic
import SpokenArithmetic.Proofs.Checks
import SpokenArithmetic.Proofs.Definitions

/-!
# What validation does to a scope

Validation goes over the tokens in turns.  A turn takes an assignment, a name or an
operation, or passes over a token, and it reads the scope, since a segment does.  Yet
the scope has no say in where a turn ends (`Progress.turn?_spec`).  So the names that
are defined on the way and their positions are known from the tokens, before any
scope is (`Verdict.definitions`), and validation writes them over the scope that it
is given (`validate_overwrites`).
-/

namespace SpokenArithmetic

/-- How far validation has come: the scope so far, and the tokens in front of it. -/
structure Progress where
  scope : Scope
  ahead : List Placed

namespace Progress

/-- One turn of validation.  At the end there is none. -/
def turn? (progress : Progress) : Option Progress :=
  match progress.ahead with
  | [] => none
  | (token, position) :: rest =>
      match token.kind with
      | .identifier =>
          match Verdict.assigned? rest with
          | some value =>
              some ⟨progress.scope.define token.normalized position,
                (Segment.ofTokens progress.scope value).rest⟩
          | none => some ⟨progress.scope, rest⟩
      | .operator _ =>
          some ⟨progress.scope,
            (Segment.ofTokens progress.scope ((token, position) :: rest)).rest⟩
      | .number | .sequence | .preposition | .comma | .assign => some ⟨progress.scope, rest⟩

/-- Whether validation comes from one point to another in some number of turns. -/
def Reaches : Progress → Progress → Prop :=
  Relation.ReflTransGen fun progress next => progress.turn? = some next

end Progress

namespace Verdict

/-- The definition that the next turn makes, if an assignment stands first. -/
def definition? : List Placed → Option (String × Nat)
  | (token, position) :: rest =>
      if token.kind = .identifier ∧ (assigned? rest).isSome then
        some (token.normalized, position)
      else
        none
  | [] => none

/-- The definitions that validation makes, in order. -/
def definitions (tokens : List Placed) : List (String × Nat) :=
  (checks tokens).filterMap fun check =>
    check.target?.map fun target => (target.1.normalized, target.2)

@[simp] theorem definitions_nil : definitions [] = [] := by
  rw [definitions, checks_nil, List.filterMap_nil]

end Verdict

/-- Whether validation of a sentence in some scope defines a name at a place. -/
def DefinesAt (tokens : List Token) (scope : Scope) (name : String) (place : Nat) : Prop :=
  ∃ progress, Progress.Reaches ⟨scope, tokens.zipIdx⟩ progress ∧
    Verdict.definition? progress.ahead = some (name, place)

/-- What it is that validation of a sentence writes `update` over a scope. -/
structure Overwrites (tokens : List Token) (scope update : Scope) : Prop where
  /-- The turns of validation end with the scope of the verdict. -/
  ends : Progress.Reaches ⟨scope, tokens.zipIdx⟩ ⟨(validate tokens scope).scope, []⟩
  overwritten : ∀ name, (validate tokens scope).scope.definition? name =
    (update.definition? name).or (scope.definition? name)
  kept : ∀ name, scope.isDefined name = true →
    (validate tokens scope).scope.isDefined name = true
  outside : ∀ name, update.isDefined name = false →
    (validate tokens scope).scope.definition? name = scope.definition? name
  /-- The update holds the last place at which a name is defined. -/
  last : ∀ name place, update.definition? name = some place ↔
    IsGreatest {place | DefinesAt tokens scope name place} place
  target : ∀ name place, update.definition? name = some place →
    ∃ token sign, tokens[place]? = some token ∧ token.kind = .identifier ∧
      token.normalized = name ∧ tokens[place + 1]? = some sign ∧ sign.kind = .assign
  again : (validate tokens (validate tokens scope).scope).scope = (validate tokens scope).scope

/-! ## Many definitions -/

namespace Scope

theorem definition?_defineAll_append (scope : Scope) (definitions : List (String × Nat))
    (entry : String × Nat) (name : String) :
    (scope.defineAll (definitions ++ [entry])).definition? name =
      if entry.1 = name then some entry.2 else (scope.defineAll definitions).definition? name := by
  rw [defineAll_append]
  exact definition?_define _ _ _ _

/-- Definitions are written over those of the scope before. -/
theorem definition?_defineAll (scope : Scope) (definitions : List (String × Nat))
    (name : String) :
    (scope.defineAll definitions).definition? name =
      ((empty.defineAll definitions).definition? name).or (scope.definition? name) := by
  induction definitions using List.reverseRecOn with
  | nil => simp
  | append_singleton definitions entry ih =>
      rw [definition?_defineAll_append, definition?_defineAll_append, ih]
      split <;> rfl

/-- To make some definitions twice is to make them once. -/
theorem defineAll_defineAll (scope : Scope) (definitions : List (String × Nat)) :
    (scope.defineAll definitions).defineAll definitions = scope.defineAll definitions := by
  ext name : 1
  rw [definition?_defineAll (scope.defineAll definitions), definition?_defineAll scope]
  cases (empty.defineAll definitions).definition? name <;> rfl

/-- Where the positions ascend, the last definition of a name is the one at the
greatest of them. -/
theorem definition?_defineAll_eq_some_iff {definitions : List (String × Nat)}
    (h : (definitions.map Prod.snd).Pairwise (· < ·)) (name : String) (place : Nat) :
    (empty.defineAll definitions).definition? name = some place ↔
      IsGreatest {place | (name, place) ∈ definitions} place := by
  induction definitions using List.reverseRecOn generalizing place with
  | nil => simp [IsGreatest, upperBounds]
  | append_singleton definitions entry ih =>
      obtain ⟨last, position⟩ := entry
      rw [List.map_append, List.pairwise_append] at h
      obtain ⟨hpairwise, -, hbefore⟩ := h
      have hlt : ∀ other, (name, other) ∈ definitions → other < position := by
        intro other hmem
        exact hbefore other (List.mem_map_of_mem hmem) position (by simp)
      rw [definition?_defineAll_append]
      by_cases hname : last = name
      · subst hname
        have hgreatest : IsGreatest {place | (last, place) ∈ definitions ++ [(last, position)]}
            position := by
          refine ⟨List.mem_append_right _ (List.mem_singleton_self _), fun other hmem => ?_⟩
          rcases List.mem_append.mp hmem with hmem | hmem
          · exact Nat.le_of_lt (hlt other hmem)
          · simp only [List.mem_singleton, Prod.mk.injEq, true_and] at hmem
            exact Nat.le_of_eq hmem
        rw [if_pos rfl, Option.some.injEq]
        constructor
        · rintro rfl
          exact hgreatest
        · exact IsGreatest.unique hgreatest
      · have hset : {place | (name, place) ∈ definitions ++ [(last, position)]} =
            {place | (name, place) ∈ definitions} := by
          ext other
          simp [Ne.symm hname]
        rw [if_neg hname, hset]
        exact ih hpairwise place

end Scope

/-! ## Turns -/

namespace Progress

open Verdict

/-- What the next turn does.  Where it ends and what it defines is the same in every
scope. -/
theorem exists_turn (placed : Placed) (rest : List Placed) :
    ∃ taken left, rest = taken ++ left ∧
      definitions (placed :: rest) =
        (definition? (placed :: rest)).toList ++ definitions left ∧
      ∀ scope, turn? ⟨scope, placed :: rest⟩ =
        some ⟨scope.defineAll (definition? (placed :: rest)).toList, left⟩ := by
  obtain ⟨token, position⟩ := placed
  have hsegment : ∀ scope tokens, (Segment.ofTokens scope tokens).rest =
      (Extent.ofTokens Tally.zero tokens).rest := by
    intro scope tokens
    rw [Segment.rest_ofTokens, Segment.scan_eq_extent]
  unfold definitions
  rw [checks_cons]
  cases hkind : token.kind with
  | identifier =>
      cases hassigned : assigned? rest with
      | some value =>
          obtain ⟨sign, rfl, -⟩ := exists_sign_of_assigned? hassigned
          refine ⟨sign :: (Extent.ofTokens Tally.zero value).taken,
            (Extent.ofTokens Tally.zero value).rest, ?_, ?_, fun scope => ?_⟩
          · rw [List.cons_append, Extent.taken_append_rest]
          · simp [definition?, hkind, hassigned, Check.ofExtent]
          · simp [turn?, definition?, hkind, hassigned, hsegment, Scope.defineAll_cons]
      | none =>
          refine ⟨[], rest, rfl, ?_, fun scope => ?_⟩
          · simp [definition?, hassigned, Check.ofName]
          · simp [turn?, definition?, hkind, hassigned]
  | operator op =>
      have hgoesOn : Tally.zero.ending? ((token, position) : Placed).1 = none := by
        simp [Tally.ending?, hkind]
      refine ⟨(Extent.ofTokens (Tally.zero.after token) rest).taken,
        (Extent.ofTokens Tally.zero ((token, position) :: rest)).rest, ?_, ?_, fun scope => ?_⟩
      · rw [Extent.ofTokens_of_goesOn hgoesOn]
        exact (Extent.taken_append_rest _ rest).symm
      · simp [definition?, hkind, Check.ofExtent]
      · simp [turn?, definition?, hkind, hsegment]
  | number | sequence | preposition | comma | assign =>
      exact ⟨[], rest, rfl, by simp [definition?, hkind], by simp [turn?, definition?, hkind]⟩

/-- Induction along the turns over some tokens. -/
theorem turn_induction {motive : List Placed → Prop} (nil : motive [])
    (turn : ∀ placed taken left,
      definitions (placed :: (taken ++ left)) =
        (definition? (placed :: (taken ++ left))).toList ++ definitions left →
      (∀ scope, turn? ⟨scope, placed :: (taken ++ left)⟩ =
        some ⟨scope.defineAll (definition? (placed :: (taken ++ left))).toList, left⟩) →
      motive left → motive (placed :: (taken ++ left)))
    (tokens : List Placed) : motive tokens := by
  induction hlength : tokens.length using Nat.strongRecOn generalizing tokens with
  | _ length ih =>
      subst hlength
      cases tokens with
      | nil => exact nil
      | cons placed rest =>
          obtain ⟨taken, left, rfl, hdefinitions, hturn⟩ := exists_turn placed rest
          refine turn placed taken left hdefinitions hturn (ih left.length ?_ left rfl)
          simp only [List.length_cons, List.length_append]
          omega

/-- The turns go through to the end, and then all definitions have been made. -/
theorem reaches_end (scope : Scope) (tokens : List Placed) :
    Reaches ⟨scope, tokens⟩ ⟨scope.defineAll (definitions tokens), []⟩ := by
  induction tokens using turn_induction generalizing scope with
  | nil =>
      rw [definitions_nil]
      exact .refl
  | turn placed taken left hdefinitions hturn ih =>
      rw [hdefinitions, Scope.defineAll_append]
      exact .head (hturn scope) (ih _)

/-- A turn leaves the definitions that are made behind it to the turns after it. -/
theorem definitions_of_turn? {progress next : Progress} (h : progress.turn? = some next) :
    definitions progress.ahead = (definition? progress.ahead).toList ++ definitions next.ahead ∧
      next.ahead <:+ progress.ahead := by
  obtain ⟨scope, ahead⟩ := progress
  cases ahead with
  | nil => cases h
  | cons placed rest =>
      obtain ⟨taken, left, rfl, hdefinitions, hturn⟩ := exists_turn placed rest
      cases (hturn scope).symm.trans h
      exact ⟨hdefinitions, placed :: taken, rfl⟩

/-- What is in front of validation at any time are the last tokens, and what it still
defines are the last definitions. -/
theorem suffix_of_reaches {start progress : Progress} (h : Reaches start progress) :
    definitions progress.ahead <:+ definitions start.ahead ∧ progress.ahead <:+ start.ahead := by
  induction h with
  | refl => exact ⟨List.suffix_refl _, List.suffix_refl _⟩
  | tail _ hturn ih =>
      obtain ⟨hdefinitions, hahead⟩ := definitions_of_turn? hturn
      exact ⟨List.IsSuffix.trans ⟨_, hdefinitions.symm⟩ ih.1, hahead.trans ih.2⟩

theorem mem_definitions_of_definition? {tokens : List Placed} {entry : String × Nat}
    (h : definition? tokens = some entry) : entry ∈ definitions tokens := by
  cases tokens with
  | nil => cases h
  | cons placed rest =>
      obtain ⟨taken, left, -, hdefinitions, -⟩ := exists_turn placed rest
      rw [hdefinitions, h]
      exact List.mem_cons_self

/-- In every scope the turns make the same definitions. -/
theorem mem_definitions_iff (scope : Scope) (tokens : List Placed) (entry : String × Nat) :
    entry ∈ definitions tokens ↔
      ∃ progress, Reaches ⟨scope, tokens⟩ progress ∧
        definition? progress.ahead = some entry := by
  constructor
  · intro hmem
    induction tokens using turn_induction generalizing scope with
    | nil => simp at hmem
    | turn placed taken left hdefinitions hturn ih =>
        rw [hdefinitions, List.mem_append, Option.mem_toList] at hmem
        rcases hmem with hnow | hlater
        · exact ⟨_, .refl, hnow⟩
        · obtain ⟨progress, hreaches, hdefinition⟩ := ih _ hlater
          exact ⟨progress, .head (hturn scope) hreaches, hdefinition⟩
  · rintro ⟨progress, hreaches, hdefinition⟩
    exact (suffix_of_reaches hreaches).1.subset (mem_definitions_of_definition? hdefinition)

end Progress

/-! ## The update -/

namespace Verdict

theorem definition?_eq_some {tokens : List Placed} {name : String} {position : Nat}
    (h : definition? tokens = some (name, position)) :
    ∃ token sign rest, tokens = (token, position) :: sign :: rest ∧
      token.kind = .identifier ∧ token.normalized = name ∧ sign.1.kind = .assign := by
  cases tokens with
  | nil => cases h
  | cons placed rest =>
      obtain ⟨token, place⟩ := placed
      rw [definition?] at h
      split at h
      · rename_i hassignment
        obtain ⟨hkind, hassigned⟩ := hassignment
        cases h
        obtain ⟨value, hvalue⟩ := Option.isSome_iff_exists.mp hassigned
        obtain ⟨sign, rfl, hsign⟩ := exists_sign_of_assigned? hvalue
        exact ⟨token, sign, value, rfl, hkind, rfl, hsign⟩
      · cases h

/-- The tokens with the names that are defined stand in the order of the definitions. -/
theorem positions_sublist (tokens : List Placed) :
    List.Sublist ((definitions tokens).map Prod.snd) (tokens.map Prod.snd) := by
  induction tokens using Progress.turn_induction with
  | nil => simp
  | turn placed taken left hdefinitions _ ih =>
      have hfirst : List.Sublist
          ((definition? (placed :: (taken ++ left))).toList.map Prod.snd) [placed.2] := by
        cases hdefinition : definition? (placed :: (taken ++ left)) with
        | none => exact List.nil_sublist _
        | some entry =>
            obtain ⟨name, position⟩ := entry
            obtain ⟨token, sign, rest, hcons, -⟩ := definition?_eq_some hdefinition
            rw [(List.cons.inj hcons).1]
            exact List.Sublist.refl _
      rw [hdefinitions, List.map_append, List.map_cons, List.map_append]
      exact hfirst.append (ih.trans (List.sublist_append_right _ _))

/-- A token at a position is the token at that index, and the next one follows it. -/
theorem getElem?_of_suffix_zipIdx {tokens : List Token} {token : Token} {position : Nat}
    {next : Placed} {rest : List Placed}
    (h : (token, position) :: next :: rest <:+ tokens.zipIdx) :
    tokens[position]? = some token ∧ tokens[position + 1]? = some next.1 := by
  obtain ⟨front, hfront⟩ := h
  have hplaced : ∀ place, tokens.zipIdx[front.length + place]? =
      ((token, position) :: next :: rest)[place]? := by
    intro place
    rw [← hfront, List.getElem?_append_right (Nat.le_add_right ..), Nat.add_sub_cancel_left]
  have hfirst := hplaced 0
  have hsecond := hplaced 1
  simp only [List.getElem?_zipIdx, Option.map_eq_some_iff, List.getElem?_cons_zero,
    List.getElem?_cons_succ, Prod.mk.injEq] at hfirst hsecond
  obtain ⟨_, htoken, rfl, rfl⟩ := hfirst
  obtain ⟨_, hnext, rfl⟩ := hsecond
  rw [Nat.zero_add]
  exact ⟨htoken, hnext⟩

theorem pairwise_definitions (tokens : List Token) :
    ((definitions tokens.zipIdx).map Prod.snd).Pairwise (· < ·) := by
  have hascending : (tokens.zipIdx.map Prod.snd).Pairwise (· < ·) := by
    rw [List.zipIdx_map_snd]
    exact List.pairwise_lt_range'
  exact hascending.sublist (positions_sublist _)

/-- The scope behind some checks defines their targets in order. -/
theorem scope_run (scope : Scope) (checks : List Check) :
    (Check.run scope checks).scope =
      scope.defineAll (checks.filterMap fun check =>
        check.target?.map fun target => (target.1.normalized, target.2)) := by
  induction checks generalizing scope with
  | nil => rfl
  | cons check rest ih =>
      rw [Check.run, scope_report, ih, Check.scopeBehind, List.filterMap_cons]
      cases check.target? <;> rfl

/-- Validation makes its definitions in whatever scope it is given. -/
theorem scope_ofPlaced (scope : Scope) (tokens : List Placed) :
    (ofPlaced scope tokens).scope = scope.defineAll (definitions tokens) := by
  rw [ofPlaced_eq_run, scope_run]
  rfl

end Verdict

/-- What validation of a sentence writes over a scope. -/
def Verdict.update (tokens : List Token) : Scope :=
  Scope.empty.defineAll (definitions tokens.zipIdx)

namespace DefinesAt

open Verdict

variable {tokens : List Token} {scope : Scope} {name : String} {place : Nat}

theorem iff_mem : DefinesAt tokens scope name place ↔ (name, place) ∈ definitions tokens.zipIdx :=
  (Progress.mem_definitions_iff scope tokens.zipIdx (name, place)).symm

/-- A name is defined where it stands in front of a sign of assignment. -/
theorem exists_assignment (h : DefinesAt tokens scope name place) :
    ∃ token sign, tokens[place]? = some token ∧ token.kind = .identifier ∧
      token.normalized = name ∧ tokens[place + 1]? = some sign ∧ sign.kind = .assign := by
  obtain ⟨progress, hreaches, hdefinition⟩ := h
  obtain ⟨token, sign, rest, hahead, hkind, hname, hsign⟩ := definition?_eq_some hdefinition
  have hsuffix := (Progress.suffix_of_reaches hreaches).2
  rw [hahead] at hsuffix
  obtain ⟨htoken, hnext⟩ := getElem?_of_suffix_zipIdx hsuffix
  exact ⟨token, sign.1, htoken, hkind, hname, hnext, hsign⟩

theorem definition?_update_iff :
    (update tokens).definition? name = some place ↔
      IsGreatest {place | DefinesAt tokens scope name place} place := by
  have hset : {place | DefinesAt tokens scope name place} =
      {place | (name, place) ∈ definitions tokens.zipIdx} := by
    ext place
    exact iff_mem
  rw [hset]
  exact Scope.definition?_defineAll_eq_some_iff (pairwise_definitions tokens) name place

end DefinesAt

open Verdict in
/-- Validation writes the same update over every scope.  No name of the scope is lost,
and a second validation changes nothing. -/
theorem validate_overwrites (tokens : List Token) :
    ∃ update : Scope, ∀ scope, Overwrites tokens scope update := by
  refine ⟨update tokens, fun scope => ?_⟩
  have hscope : ∀ scope, (validate tokens scope).scope =
      scope.defineAll (definitions tokens.zipIdx) := fun scope => scope_ofPlaced scope _
  have hover : ∀ name, (validate tokens scope).scope.definition? name =
      ((update tokens).definition? name).or (scope.definition? name) := by
    rw [hscope]
    exact Scope.definition?_defineAll scope _
  refine
    { ends := ?ends
      overwritten := hover
      kept := ?kept
      outside := ?outside
      last := fun name place => DefinesAt.definition?_update_iff
      target := ?target
      again := ?again }
  case ends =>
    rw [hscope]
    exact Progress.reaches_end scope _
  case kept =>
    intro name hdefined
    rw [hscope, Scope.isDefined_defineAll, hdefined, Bool.true_or]
  case outside =>
    intro name hundefined
    rw [Scope.isDefined_eq_isSome, Option.isSome_eq_false_iff, Option.isNone_iff_eq_none]
      at hundefined
    rw [hover, hundefined, Option.none_or]
  case target =>
    intro name place hplace
    have hgreatest : IsGreatest {place | DefinesAt tokens scope name place} place :=
      DefinesAt.definition?_update_iff.mp hplace
    exact DefinesAt.exists_assignment hgreatest.1
  case again => rw [hscope, hscope, Scope.defineAll_defineAll]

end SpokenArithmetic

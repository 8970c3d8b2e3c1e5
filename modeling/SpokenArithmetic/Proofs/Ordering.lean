import Mathlib.Data.List.Pairwise
import SpokenArithmetic.Proofs.Clustering
import SpokenArithmetic.Proofs.Placement

/-!
# Pieces in order

The pieces of a transcript are the texts of its tokens and the unrecognized
stretches.  Where nothing is unrecognized inside a cluster (`Cluster.Solid`),
each stretch stands in front of a merged lexeme or at the end, and to sort the
pieces by their positions is to go from cluster to cluster
(`ClustersOf.reconstruct_eq`).  A stretch inside a cluster lies inside the token
of the cluster, and this is how broken clusters show in a transcript
(`ClustersOf.unbroken_iff`).
-/

namespace SpokenArithmetic

open Cluster Lexeme

/-- Whether nothing but blanks is passed over inside a cluster. -/
def Cluster.Solid (cluster : Cluster) : Prop :=
  ∀ c ∈ cluster.inside, Text.isBlank c = true

/-- Whether a stretch does not reach into a range. -/
def Unrecognized.Outside (stretch : Unrecognized) (span : Span) : Prop :=
  stretch.span.stop ≤ span.start ∨ span.stop ≤ stretch.span.start

/-- Whether no unrecognized stretch lies inside a token. -/
def Transcript.Unbroken (transcript : Transcript) : Prop :=
  ∀ token ∈ transcript.tokens, ∀ stretch ∈ transcript.unrecognized, stretch.Outside token.span

instance (stretch : Unrecognized) (span : Span) : Decidable (stretch.Outside span) :=
  inferInstanceAs (Decidable (_ ∨ _))

instance (transcript : Transcript) : Decidable transcript.Unbroken :=
  inferInstanceAs (Decidable (∀ token ∈ transcript.tokens,
    ∀ stretch ∈ transcript.unrecognized, stretch.Outside token.span))

/-! ## Places -/

namespace Unrecognized

theorem ofGap_of_isBlank {gap : List Char} (h : ∀ c ∈ gap, Text.isBlank c = true) (start : Nat) :
    ofGap start gap = [] := by
  have htrim := (Text.trim_eq_nil_iff gap).mpr h
  simp [ofGap, htrim]

/-- A gap leaves to report what is not blank at its ends, if it is not blank
throughout. -/
theorem ofGap_cases (start : Nat) (gap : List Char) :
    (∀ c ∈ gap, Text.isBlank c = true) ∧ ofGap start gap = [] ∨
      ∃ front text back, gap = front ++ (text ++ back) ∧
        (∀ c ∈ front, Text.isBlank c = true) ∧ (∀ c ∈ back, Text.isBlank c = true) ∧
          text ≠ [] ∧ Text.trim text = text ∧
            ofGap start gap = [⟨String.ofList text,
              ⟨start + Text.width front, start + Text.width front + Text.width text⟩⟩] := by
  by_cases htrim : Text.trim gap = []
  · have hblank := (Text.trim_eq_nil_iff gap).mp htrim
    exact Or.inl ⟨hblank, ofGap_of_isBlank hblank start⟩
  · refine Or.inr ⟨gap.takeWhile Text.isBlank, Text.trim gap,
      ((Text.trimStart gap).reverse.takeWhile Text.isBlank).reverse, ?_, ?_, ?_, htrim,
      Text.trim_trim gap, ?_⟩
    · rw [Text.trim, Text.trimEnd_append_takeWhile, Text.takeWhile_append_trimStart]
    · exact fun c hc => List.all_eq_true.mp List.all_takeWhile c hc
    · exact fun c hc => List.all_eq_true.mp List.all_takeWhile c (List.mem_reverse.mp hc)
    · simp [ofGap, htrim]

/-- What a gap leaves to report lies inside the gap and is not empty. -/
theorem bounds_of_mem_ofGap {start : Nat} {gap : List Char} {stretch : Unrecognized}
    (h : stretch ∈ ofGap start gap) :
    start ≤ stretch.span.start ∧ stretch.span.start < stretch.span.stop ∧
      stretch.span.stop ≤ start + Text.width gap := by
  rcases ofGap_cases start gap with ⟨-, hnil⟩ | ⟨front, text, back, rfl, -, -, hne, -, hgap⟩
  · rw [hnil] at h
    cases h
  · rw [hgap] at h
    obtain rfl := List.mem_singleton.mp h
    have hpositive := Text.width_pos hne
    simp only [Text.width_append]
    omega

theorem start_le_of_mem_ofScan {start : Nat} {lexemes : List Lexeme} {trail : List Char}
    {stretch : Unrecognized} (h : stretch ∈ ofScan start lexemes trail) :
    start ≤ stretch.span.start := by
  induction lexemes generalizing start with
  | nil => exact (bounds_of_mem_ofGap h).1
  | cons lexeme rest ih =>
      rcases List.mem_append.mp h with h | h
      · exact (bounds_of_mem_ofGap h).1
      · exact Nat.le_trans (Nat.le_add_right _ _) (ih h)

/-- Without junk inside the clusters it stands in front of merged lexemes. -/
theorem ofScan_merged {clusters : List Cluster} (h : ∀ cluster ∈ clusters, cluster.Solid)
    (start : Nat) (trail : List Char) :
    ofScan start (clusters.flatMap members) trail = ofScan start (clusters.map merged) trail := by
  induction clusters generalizing start with
  | nil => rfl
  | cons cluster rest ih =>
      obtain ⟨hcluster, hrest⟩ := List.forall_mem_cons.mp h
      cases cluster with
      | single lexeme => exact congrArg (ofGap start lexeme.lead ++ ·) (ih hrest _)
      | compound tens joint units value =>
          have hjoint : ∀ c ∈ joint.lead, Text.isBlank c = true :=
            fun c hc => hcluster c (List.mem_append_left _ hc)
          have hunits : ∀ c ∈ units.lead, Text.isBlank c = true :=
            fun c hc => hcluster c (List.mem_append_right _ hc)
          simp only [List.flatMap_cons, members, List.cons_append, List.nil_append, ofScan,
            ofGap_of_isBlank hjoint, ofGap_of_isBlank hunits, List.map_cons, merged,
            chars_compound, Text.width_append, ih hrest, Nat.add_assoc]
          rfl

end Unrecognized

namespace Token

theorem start_le_of_mem_ofLexemes {start : Nat} {lexemes : List Lexeme} {token : Token}
    (h : token ∈ ofLexemes start lexemes) : start ≤ token.span.start := by
  induction lexemes generalizing start with
  | nil => cases h
  | cons lexeme rest ih =>
      rcases List.mem_cons.mp h with rfl | h
      · exact Nat.le_add_right _ _
      · have hrest := ih h
        omega

/-- Promotion changes nothing that the text and its place decide. -/
theorem map_promoteFrom {α : Type} (f : String → Span → α) (previous : Option Kind)
    (tokens : List Token) :
    (promoteFrom previous tokens).map (fun token => f token.written token.span) =
      tokens.map (fun token => f token.written token.span) := by
  induction tokens generalizing previous with
  | nil => rfl
  | cons token rest ih => simp [promoteFrom, ih]

end Token

/-! ## Stretches inside tokens -/

/-- What is passed over in front of a lexeme stays outside of every lexeme. -/
theorem outside_of_mem {start : Nat} {lexemes : List Lexeme} {trail : List Char} {token : Token}
    {stretch : Unrecognized} (htoken : token ∈ Token.ofLexemes start lexemes)
    (hstretch : stretch ∈ Unrecognized.ofScan start lexemes trail) :
    stretch.Outside token.span := by
  induction lexemes generalizing start with
  | nil => cases htoken
  | cons lexeme rest ih =>
      rcases List.mem_cons.mp htoken with rfl | htoken
      · rcases List.mem_append.mp hstretch with hgap | hrest
        · exact Or.inl (Unrecognized.bounds_of_mem_ofGap hgap).2.2
        · have hstart := Unrecognized.start_le_of_mem_ofScan hrest
          simp only [chars, Text.width_append] at hstart
          exact Or.inr (by dsimp only; omega)
      · rcases List.mem_append.mp hstretch with hgap | hrest
        · have hstart := Token.start_le_of_mem_ofLexemes htoken
          have hstop := (Unrecognized.bounds_of_mem_ofGap hgap).2.2
          exact Or.inl (by omega)
        · simp only [chars, Text.width_append, ← Nat.add_assoc] at hrest
          exact ih htoken hrest

/-- A gap inside a range is blank if what it leaves to report is outside. -/
theorem isBlank_of_outside {start : Nat} {gap : List Char} {span : Span}
    (h : ∀ stretch ∈ Unrecognized.ofGap start gap, stretch.Outside span)
    (hstart : span.start ≤ start) (hstop : start + Text.width gap ≤ span.stop) :
    ∀ c ∈ gap, Text.isBlank c = true := by
  rw [← Text.trim_eq_nil_iff]
  by_contra hne
  obtain ⟨stretch, hmem⟩ : ∃ stretch, stretch ∈ Unrecognized.ofGap start gap := by
    simp [Unrecognized.ofGap, hne]
  have hbounds := Unrecognized.bounds_of_mem_ofGap hmem
  rcases h stretch hmem with hbefore | hbehind <;> omega

/-- Where every stretch is outside of every merged lexeme, none is inside a
cluster. -/
theorem solid_of_forall_outside {clusters : List Cluster} {trail : List Char} (start : Nat)
    (h : ∀ token ∈ Token.ofLexemes start (clusters.map merged),
      ∀ stretch ∈ Unrecognized.ofScan start (clusters.flatMap members) trail,
        stretch.Outside token.span) :
    ∀ cluster ∈ clusters, cluster.Solid := by
  induction clusters generalizing start with
  | nil => simp
  | cons cluster rest ih =>
      obtain ⟨hfirst, hrest⟩ := List.forall_mem_cons.mp h
      have hsolid := ih (start + Text.width cluster.merged.chars)
      cases cluster with
      | single lexeme =>
          refine List.forall_mem_cons.mpr ⟨by simp [Solid, inside], hsolid ?_⟩
          intro token htoken stretch hstretch
          simp only [merged, chars, Text.width_append, ← Nat.add_assoc] at htoken
          exact hrest token htoken stretch (List.mem_append_right _ hstretch)
      | compound tens joint units value =>
          simp only [List.flatMap_cons, members, List.cons_append, List.nil_append,
            Unrecognized.ofScan, List.mem_append, merged, Lexeme.compound, chars,
            Text.width_append, ← Nat.add_assoc] at hfirst hrest hsolid
          have hjoint : ∀ c ∈ joint.lead, Text.isBlank c = true := by
            refine isBlank_of_outside
              (fun stretch hmem => hfirst stretch (Or.inr (Or.inl hmem))) ?_ ?_
            · dsimp only; omega
            · dsimp only; omega
          have hunits : ∀ c ∈ units.lead, Text.isBlank c = true := by
            refine isBlank_of_outside
              (fun stretch hmem => hfirst stretch (Or.inr (Or.inr (Or.inl hmem)))) ?_ ?_
            · dsimp only; omega
            · dsimp only; omega
          refine List.forall_mem_cons.mpr ⟨?_, hsolid fun token htoken stretch hstretch =>
            hrest token htoken stretch (Or.inr (Or.inr (Or.inr hstretch)))⟩
          intro c hc
          rcases List.mem_append.mp hc with hc | hc
          · exact hjoint c hc
          · exact hunits c hc

/-! ## The clusters of a text -/

/-- A lexeme is never empty. -/
theorem Lexeme.Cut.text_ne_nil {tail : List Char} {lexemes : List Lexeme} (h : Cut tail lexemes) :
    ∀ lexeme ∈ lexemes, lexeme.text ≠ [] := by
  induction lexemes with
  | nil => simp
  | cons lexeme rest ih =>
      obtain ⟨-, hlongest, -, hrest⟩ := h
      refine List.forall_mem_cons.mpr ⟨?_, ih hrest⟩
      exact List.ne_nil_of_length_pos (Vocabulary.length_pos hlongest)

/-- Whether a text is cut into the lexemes of some clusters and `trail` behind
them. -/
structure ClustersOf (source : String) (clusters : List Cluster) (trail : List Char) : Prop where
  scan : Scan.ofText source.toList = ⟨clusters.flatMap members, trail⟩
  clustered : Clustered clusters

theorem exists_clustersOf (source : String) :
    ∃ clusters trail, ClustersOf source clusters trail := by
  obtain ⟨clusters, hclustered, hmembers⟩ := exists_clustered (Scan.ofText source.toList).lexemes
  exact ⟨clusters, _, by rw [hmembers], hclustered⟩

namespace ClustersOf

variable {source : String} {clusters : List Cluster} {trail : List Char}

theorem tokens_eq (h : ClustersOf source clusters trail) :
    (Transcript.ofSource source).tokens =
      Token.promoteKeywords (Token.ofLexemes 0 (clusters.map merged)) := by
  rw [Transcript.ofSource, h.scan]
  dsimp only
  rw [h.clustered.mergeCompounds_eq]

theorem unrecognized_eq (h : ClustersOf source clusters trail) :
    (Transcript.ofSource source).unrecognized =
      Unrecognized.ofScan 0 (clusters.flatMap members) trail := by
  rw [Transcript.ofSource, h.scan]

theorem toList_eq (h : ClustersOf source clusters trail) :
    source.toList = (clusters.map merged).flatMap chars ++ trail := by
  have hchars := Scan.chars_ofText source.toList
  rw [h.scan, Scan.chars] at hchars
  rw [← h.clustered.mergeCompounds_eq, flatMap_chars_mergeCompounds, hchars]

theorem cut (h : ClustersOf source clusters trail) :
    Cut trail (clusters.flatMap members) ∧ Passed trail := by
  have hcut := Scan.cut_ofText source.toList
  rw [h.scan] at hcut
  exact hcut

/-- A token is broken where a cluster is not solid, and nowhere else. -/
theorem unbroken_iff (h : ClustersOf source clusters trail) :
    (Transcript.ofSource source).Unbroken ↔ ∀ cluster ∈ clusters, cluster.Solid := by
  have hspans := Token.map_promoteFrom (fun _ span => span) none
    (Token.ofLexemes 0 (clusters.map merged))
  have hall (tokens : List Token) (stretches : List Unrecognized) :
      (∀ token ∈ tokens, ∀ stretch ∈ stretches, stretch.Outside token.span) ↔
        ∀ span ∈ tokens.map Token.span, ∀ stretch ∈ stretches, stretch.Outside span := by
    simp only [List.forall_mem_map]
  rw [Transcript.Unbroken, hall, h.tokens_eq, Token.promoteKeywords, hspans, ← hall,
    h.unrecognized_eq]
  constructor
  · exact solid_of_forall_outside 0
  · intro hsolid token htoken stretch hstretch
    rw [Unrecognized.ofScan_merged hsolid] at hstretch
    exact outside_of_mem htoken hstretch

end ClustersOf

-- Junk beside a compound numeral breaks no token, and junk inside one does.
example : (Transcript.ofSource "suma 5 @ treinta y dos").Unbroken ∧
    ¬ (Transcript.ofSource "treinta # y dos").Unbroken := by
  decide +kernel

/-! ## Sorting -/

/-- The position and the text of a token. -/
def Token.piece (token : Token) : Nat × String :=
  (token.span.start, token.written)

/-- The position and the text of a stretch. -/
def Unrecognized.piece (stretch : Unrecognized) : Nat × String :=
  (stretch.span.start, stretch.text)

/-- The pieces of lexemes that begin at the position `start`, from left to
right. -/
def orderedPieces (start : Nat) (trail : List Char) : List Lexeme → List (Nat × String)
  | [] => (Unrecognized.ofGap start trail).map Unrecognized.piece
  | lexeme :: rest =>
      (Unrecognized.ofGap start lexeme.lead).map Unrecognized.piece ++
        (start + Text.width lexeme.lead, String.ofList lexeme.text) ::
          orderedPieces (start + Text.width lexeme.chars) trail rest

theorem perm_orderedPieces (start : Nat) (trail : List Char) (lexemes : List Lexeme) :
    ((Token.ofLexemes start lexemes).map Token.piece ++
      (Unrecognized.ofScan start lexemes trail).map Unrecognized.piece).Perm
        (orderedPieces start trail lexemes) := by
  induction lexemes generalizing start with
  | nil => exact List.Perm.refl _
  | cons lexeme rest ih =>
      have hrest := ih (start + Text.width lexeme.chars)
      simp only [Token.ofLexemes, Unrecognized.ofScan, List.map_cons, List.map_append,
        List.cons_append, orderedPieces]
      simp only [chars, Text.width_append, ← Nat.add_assoc] at hrest ⊢
      refine List.Perm.trans ?_ (List.Perm.append_left _ (List.Perm.cons _ hrest))
      -- The stretch in front of the lexeme goes before its token.
      refine List.Perm.trans ?_ List.perm_middle.symm
      exact List.Perm.cons _ (List.perm_append_comm_assoc _ _ _)

theorem start_le_of_mem_orderedPieces {start : Nat} {trail : List Char} {lexemes : List Lexeme}
    {piece : Nat × String} (h : piece ∈ orderedPieces start trail lexemes) : start ≤ piece.1 := by
  rcases List.mem_append.mp ((perm_orderedPieces start trail lexemes).mem_iff.mpr h) with h | h
  · obtain ⟨token, htoken, rfl⟩ := List.mem_map.mp h
    exact Token.start_le_of_mem_ofLexemes htoken
  · obtain ⟨stretch, hstretch, rfl⟩ := List.mem_map.mp h
    exact Unrecognized.start_le_of_mem_ofScan hstretch

/-- From left to right the positions go up. -/
theorem pairwise_orderedPieces {lexemes : List Lexeme} (h : ∀ lexeme ∈ lexemes, lexeme.text ≠ [])
    (start : Nat) (trail : List Char) :
    (orderedPieces start trail lexemes).Pairwise fun piece other => piece.1 < other.1 := by
  have hgap (start : Nat) (gap : List Char) :
      ((Unrecognized.ofGap start gap).map Unrecognized.piece).Pairwise
        fun piece other => piece.1 < other.1 := by
    unfold Unrecognized.ofGap
    dsimp only
    split <;> simp
  induction lexemes generalizing start with
  | nil => exact hgap start trail
  | cons lexeme rest ih =>
      obtain ⟨htext, hrest⟩ := List.forall_mem_cons.mp h
      have hwidth := Text.width_pos htext
      have hbehind : ∀ piece ∈ orderedPieces (start + Text.width lexeme.chars) trail rest,
          start + Text.width lexeme.lead < piece.1 := by
        intro piece hpiece
        have hstart := start_le_of_mem_orderedPieces hpiece
        rw [chars, Text.width_append] at hstart
        omega
      refine List.pairwise_append.mpr
        ⟨hgap start lexeme.lead, List.pairwise_cons.mpr ⟨hbehind, ih hrest _⟩, ?_⟩
      intro piece hpiece other hother
      obtain ⟨stretch, hstretch, rfl⟩ := List.mem_map.mp hpiece
      have hbounds := Unrecognized.bounds_of_mem_ofGap hstretch
      have hpiece : (Unrecognized.piece stretch).1 < start + Text.width lexeme.lead :=
        Nat.lt_of_lt_of_le hbounds.2.1 hbounds.2.2
      rcases List.mem_cons.mp hother with rfl | hother
      · exact hpiece
      · exact Nat.lt_trans hpiece (hbehind other hother)

/-- Pieces whose positions go up are what sorting makes of them. -/
theorem mergeSort_eq_of_perm {pieces ordered : List (Nat × String)} (hperm : pieces.Perm ordered)
    (hordered : ordered.Pairwise fun piece other => piece.1 < other.1) :
    (pieces.mergeSort fun piece other => piece.1 ≤ other.1) = ordered := by
  have hsorted : (pieces.mergeSort fun piece other => piece.1 ≤ other.1).Pairwise
      fun piece other => decide (piece.1 ≤ other.1) = true := by
    refine List.pairwise_mergeSort ?_ ?_ pieces
    · intro piece other third h h'
      exact decide_eq_true (Nat.le_trans (of_decide_eq_true h) (of_decide_eq_true h'))
    · intro piece other
      rw [Bool.or_eq_true, decide_eq_true_eq, decide_eq_true_eq]
      exact Nat.le_total piece.1 other.1
  have hsame := (List.mergeSort_perm pieces fun piece other => piece.1 ≤ other.1).trans hperm
  -- No two pieces have the same position.
  have hunique : ∀ ⦃piece⦄, piece ∈ ordered → ∀ ⦃other⦄, other ∈ ordered →
      piece.1 = other.1 → piece = other := by
    refine List.Pairwise.forall_of_forall_of_flip (fun _ _ _ => rfl) ?_ ?_
    · exact hordered.imp fun hlt heq => absurd heq (Nat.ne_of_lt hlt)
    · exact hordered.imp fun hlt heq => absurd heq (Nat.ne_of_gt hlt)
  have hweak : ordered.Pairwise fun piece other => decide (piece.1 ≤ other.1) = true :=
    hordered.imp fun hlt => decide_eq_true (Nat.le_of_lt hlt)
  refine List.Perm.eq_of_pairwise ?_ hsorted hweak hsame
  intro piece other hpiece hother h h'
  exact hunique (hsame.mem_iff.mp hpiece) hother
    (Nat.le_antisymm (of_decide_eq_true h) (of_decide_eq_true h'))

/-! ## Texts of the pieces -/

/-- What a gap leaves to report, without its place. -/
def stretchTexts (gap : List Char) : List (List Char) :=
  if Text.trim gap = [] then [] else [Text.trim gap]

/-- The texts of the pieces of some lexemes, from left to right. -/
def pieceTexts (trail : List Char) (lexemes : List Lexeme) : List (List Char) :=
  lexemes.flatMap (fun lexeme => stretchTexts lexeme.lead ++ [lexeme.text]) ++ stretchTexts trail

theorem pieceTexts_cons (trail : List Char) (lexeme : Lexeme) (rest : List Lexeme) :
    pieceTexts trail (lexeme :: rest) =
      stretchTexts lexeme.lead ++ lexeme.text :: pieceTexts trail rest := by
  simp [pieceTexts]

theorem map_text_ofGap (start : Nat) (gap : List Char) :
    (Unrecognized.ofGap start gap).map (·.text) = (stretchTexts gap).map String.ofList := by
  unfold Unrecognized.ofGap stretchTexts
  by_cases htrim : Text.trim gap = [] <;> simp [htrim]

theorem map_text_ofScan (start : Nat) (lexemes : List Lexeme) (trail : List Char) :
    (Unrecognized.ofScan start lexemes trail).map (·.text) =
      (lexemes.flatMap (fun lexeme => stretchTexts lexeme.lead) ++ stretchTexts trail).map
        String.ofList := by
  induction lexemes generalizing start with
  | nil => exact map_text_ofGap start trail
  | cons lexeme rest ih =>
      rw [Unrecognized.ofScan, List.map_append, map_text_ofGap, ih, List.flatMap_cons,
        List.append_assoc, ← List.map_append]

theorem map_snd_orderedPieces (start : Nat) (trail : List Char) (lexemes : List Lexeme) :
    (orderedPieces start trail lexemes).map (·.2) =
      (pieceTexts trail lexemes).map String.ofList := by
  have hgap (start : Nat) (gap : List Char) :
      ((Unrecognized.ofGap start gap).map Unrecognized.piece).map (·.2) =
        (stretchTexts gap).map String.ofList := by
    rw [List.map_map, ← map_text_ofGap start]
    rfl
  induction lexemes generalizing start with
  | nil => exact hgap start trail
  | cons lexeme rest ih =>
      rw [orderedPieces, List.map_append, hgap, List.map_cons, ih, pieceTexts_cons,
        List.map_append, List.map_cons]

namespace ClustersOf

variable {source : String} {clusters : List Cluster} {trail : List Char}

theorem text_ne_nil (h : ClustersOf source clusters trail) :
    ∀ lexeme ∈ clusters.map merged, lexeme.text ≠ [] := by
  intro lexeme hlexeme
  obtain ⟨cluster, hcluster, rfl⟩ := List.mem_map.mp hlexeme
  have hmembers : ∀ member ∈ cluster.members, member.text ≠ [] := fun member hmember =>
    h.cut.1.text_ne_nil member (List.mem_flatMap.mpr ⟨cluster, hcluster, hmember⟩)
  cases cluster with
  | single lexeme => exact hmembers lexeme (List.mem_singleton_self _)
  | compound tens joint units value =>
      have htens := hmembers tens (List.mem_cons_self ..)
      simp [merged, Lexeme.compound, htens]

/-- A transcript whose tokens are not broken is put together from left to right. -/
theorem reconstruct_eq (h : ClustersOf source clusters trail)
    (hsolid : ∀ cluster ∈ clusters, cluster.Solid) :
    (Transcript.ofSource source).reconstruct =
      " ".intercalate ((pieceTexts trail (clusters.map merged)).map String.ofList) := by
  have hpieces : (Transcript.ofSource source).pieces =
      (Token.ofLexemes 0 (clusters.map merged)).map Token.piece ++
        (Unrecognized.ofScan 0 (clusters.map merged) trail).map Unrecognized.piece := by
    rw [Transcript.pieces, h.tokens_eq, h.unrecognized_eq, Unrecognized.ofScan_merged hsolid,
      Token.promoteKeywords,
      Token.map_promoteFrom (fun written span => (span.start, written))]
    rfl
  rw [Transcript.reconstruct, hpieces, mergeSort_eq_of_perm (perm_orderedPieces 0 trail _)
    (pairwise_orderedPieces h.text_ne_nil 0 trail), map_snd_orderedPieces]

end ClustersOf
end SpokenArithmetic

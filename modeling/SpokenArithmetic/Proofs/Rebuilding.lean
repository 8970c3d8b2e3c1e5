import SpokenArithmetic.Proofs.Ordering

/-!
# Putting a text together again

A transcript rebuilds its text from the pieces, with one space between two of
them.  If no token is broken, the text that comes of it has the characters of
the first one up to blanks, and is cut into the same clusters, each spaced anew
(`ClustersOf.respaced`); so its transcript differs in nothing but the places.
Junk inside a compound numeral is put down twice, once in the text of the
token and once by itself, and then there are too many characters
(`Transcript.faithful_iff`).
-/

namespace SpokenArithmetic

open Cluster Lexeme

/-- A text without its blanks. -/
def Text.visible (cs : List Char) : List Char :=
  cs.filter fun c => !isBlank c

/-- What a token says, without its place. -/
def Token.content (token : Token) : Kind × String × String :=
  (token.kind, token.normalized, token.written)

/-- Whether a sentence that is put together again is the same up to blanks, and
has the same transcript up to places. -/
structure Transcript.Faithful (transcript : Transcript) : Prop where
  visible : Text.visible transcript.reconstruct.toList = Text.visible transcript.source.toList
  tokens : (ofSource transcript.reconstruct).tokens.map Token.content =
    transcript.tokens.map Token.content
  identifiers : (ofSource transcript.reconstruct).identifiers = transcript.identifiers
  unrecognized : (ofSource transcript.reconstruct).unrecognizedTexts = transcript.unrecognizedTexts
  again : (ofSource transcript.reconstruct).reconstruct = transcript.reconstruct

/-! ## Spaces between pieces -/

/-- Texts with one space between two of them, and with `separator` in front of
the first. -/
def spaced (separator : List Char) : List (List Char) → List Char
  | [] => []
  | text :: rest => separator ++ text ++ spaced [' '] rest

theorem toList_intercalate_space (texts : List String) :
    (" ".intercalate texts).toList = spaced [] (texts.map String.toList) := by
  cases texts with
  | nil => rfl
  | cons text rest =>
      induction rest generalizing text with
      | nil => simp [spaced]
      | cons second rest ih =>
          rw [String.intercalate_cons_cons, String.toList_append, ih second]
          simp [spaced]

/-- Respaced clusters are their pieces with one space between two of them. -/
theorem chars_respaced (separator trail : List Char) (clusters : List Cluster) :
    ((respaced separator clusters).map merged).flatMap chars ++
        respacedTrail separator trail clusters =
      spaced separator (pieceTexts trail (clusters.map merged)) := by
  induction clusters generalizing separator with
  | nil =>
      by_cases htrim : Text.trim trail = [] <;>
        simp [respaced, respacedTrail, pieceTexts, stretchTexts, spaced, htrim]
  | cons cluster rest ih =>
      rw [List.map_cons, pieceTexts_cons]
      by_cases htrim : Text.trim cluster.merged.lead = [] <;>
        simp [respaced, respacedTrail, stretchTexts, spaced, spacing, chars, htrim, ← ih]

theorem ClustersOf.respaced {source source' : String} {clusters : List Cluster} {trail : List Char}
    (h : ClustersOf source clusters trail)
    (hsource : source'.toList = spaced [] (pieceTexts trail (clusters.map merged))) :
    ClustersOf source' (respaced [] clusters) (respacedTrail [] trail clusters) := by
  have hclustered := h.clustered.respaced []
  have hcut := cut_respaced passed_nil h.cut.1
  have hpassed := passed_respacedTrail passed_nil h.cut.2 clusters
  have htext := Scan.ofText_of_cut hcut hpassed
  rw [← flatMap_chars_mergeCompounds, hclustered.mergeCompounds_eq, chars_respaced,
    ← hsource] at htext
  exact ⟨htext, hclustered⟩

/-! ## What spacing keeps -/

/-- A lexeme with the junk in front of it, but without the blanks around that. -/
def Lexeme.trimmed (lexeme : Lexeme) : Lexeme :=
  { lexeme with lead := Text.trim lexeme.lead }

theorem trim_spacing {separator : List Char} (h : ∀ c ∈ separator, Text.isBlank c = true)
    (gap : List Char) : Text.trim (spacing separator gap) = Text.trim gap := by
  rw [spacing, Text.trim_append_left h]
  split
  · rename_i htrim
    rw [htrim, Text.trim_nil]
  · rw [Text.trim_append_right isBlank_of_mem_space, Text.trim_trim]

theorem map_trimmed_respaced {separator : List Char} (h : ∀ c ∈ separator, Text.isBlank c = true)
    (clusters : List Cluster) :
    ((respaced separator clusters).map merged).map trimmed =
      (clusters.map merged).map trimmed := by
  induction clusters generalizing separator with
  | nil => rfl
  | cons cluster rest ih =>
      simp only [SpokenArithmetic.respaced, List.map_cons, merged_setLead, ih isBlank_of_mem_space]
      simp only [trimmed, trim_spacing h]

theorem trim_respacedTrail {separator : List Char} (h : ∀ c ∈ separator, Text.isBlank c = true)
    (trail : List Char) (clusters : List Cluster) :
    Text.trim (respacedTrail separator trail clusters) = Text.trim trail := by
  induction clusters generalizing separator with
  | nil =>
      rw [respacedTrail]
      split
      · rename_i htrim
        rw [htrim, Text.trim_nil]
      · rw [Text.trim_append_left h, Text.trim_trim]
  | cons cluster rest ih => exact ih isBlank_of_mem_space

theorem solid_respaced {clusters : List Cluster} (h : ∀ cluster ∈ clusters, cluster.Solid)
    (separator : List Char) : ∀ cluster ∈ respaced separator clusters, cluster.Solid := by
  induction clusters generalizing separator with
  | nil => simp [SpokenArithmetic.respaced]
  | cons cluster rest ih =>
      obtain ⟨hcluster, hrest⟩ := List.forall_mem_cons.mp h
      refine List.forall_mem_cons.mpr ⟨?_, ih hrest _⟩
      rw [Cluster.Solid, inside_setLead]
      exact hcluster

/-! ## What trimmed lexemes decide -/

theorem stretchTexts_trim (gap : List Char) : stretchTexts (Text.trim gap) = stretchTexts gap := by
  rw [stretchTexts, stretchTexts, Text.trim_trim]

theorem pieceTexts_map_trimmed (trail : List Char) (lexemes : List Lexeme) :
    pieceTexts (Text.trim trail) (lexemes.map trimmed) = pieceTexts trail lexemes := by
  simp only [pieceTexts, List.flatMap_map, trimmed, stretchTexts_trim]

/-- The token of a lexeme without its place. -/
def Token.ofLexeme (lexeme : Lexeme) : Token where
  kind := lexeme.kind
  normalized := lexeme.normalized
  written := String.ofList lexeme.text
  span := ⟨0, 0⟩

theorem Token.map_relocate_ofLexemes (start : Nat) (lexemes : List Lexeme) :
    (ofLexemes start lexemes).map (relocate fun _ => ⟨0, 0⟩) = lexemes.map ofLexeme := by
  induction lexemes generalizing start with
  | nil => rfl
  | cons lexeme rest ih => exact congrArg (ofLexeme lexeme :: ·) (ih _)

/-- What the tokens of lexemes say does not depend on the characters in front
of the lexemes. -/
theorem Token.map_content_promoteKeywords (start : Nat) (lexemes : List Lexeme) :
    (promoteKeywords (ofLexemes start lexemes)).map content =
      (promoteKeywords ((lexemes.map trimmed).map ofLexeme)).map content := by
  have hplaceless : (lexemes.map trimmed).map ofLexeme =
      (ofLexemes start lexemes).map (relocate fun _ => ⟨0, 0⟩) := by
    rw [map_relocate_ofLexemes, List.map_map]
    rfl
  rw [hplaceless, promoteKeywords, promoteKeywords, promoteFrom_map_relocate, List.map_map]
  rfl

theorem Transcript.identifiers_ofSource (source : String) :
    (ofSource source).identifiers =
      (((ofSource source).tokens.map Token.content).filter (·.1 == .identifier)).map (·.2.2) := by
  rw [List.filter_map, List.map_map]
  rfl

/-- Texts with the same trimmed lexemes have the same transcript up to places. -/
theorem ClustersOf.congr {source source' : String} {clusters clusters' : List Cluster}
    {trail trail' : List Char} (h : ClustersOf source clusters trail)
    (h' : ClustersOf source' clusters' trail') (hsolid : ∀ cluster ∈ clusters, cluster.Solid)
    (hsolid' : ∀ cluster ∈ clusters', cluster.Solid)
    (hlexemes : (clusters'.map merged).map trimmed = (clusters.map merged).map trimmed)
    (htrail : Text.trim trail' = Text.trim trail) :
    (Transcript.ofSource source').tokens.map Token.content =
        (Transcript.ofSource source).tokens.map Token.content ∧
      (Transcript.ofSource source').unrecognizedTexts =
        (Transcript.ofSource source).unrecognizedTexts ∧
      (Transcript.ofSource source').reconstruct = (Transcript.ofSource source).reconstruct := by
  refine ⟨?_, ?_, ?_⟩
  · rw [h.tokens_eq, h'.tokens_eq, Token.map_content_promoteKeywords, hlexemes,
      ← Token.map_content_promoteKeywords]
  · have htexts (lexemes : List Lexeme) (trail : List Char) :
        lexemes.flatMap (fun lexeme => stretchTexts lexeme.lead) ++ stretchTexts trail =
          (lexemes.map trimmed).flatMap (fun lexeme => stretchTexts lexeme.lead) ++
            stretchTexts (Text.trim trail) := by
      simp only [List.flatMap_map, trimmed, stretchTexts_trim]
    rw [Transcript.unrecognizedTexts, Transcript.unrecognizedTexts, h.unrecognized_eq,
      h'.unrecognized_eq, Unrecognized.ofScan_merged hsolid, Unrecognized.ofScan_merged hsolid',
      map_text_ofScan, map_text_ofScan, htexts, hlexemes, htrail, ← htexts]
  · rw [h.reconstruct_eq hsolid, h'.reconstruct_eq hsolid', ← pieceTexts_map_trimmed, hlexemes,
      htrail, pieceTexts_map_trimmed]

/-! ## Visible characters -/

namespace Text

@[simp] theorem visible_append (cs ds : List Char) :
    visible (cs ++ ds) = visible cs ++ visible ds :=
  List.filter_append _ _

theorem visible_eq_nil_iff (cs : List Char) : visible cs = [] ↔ ∀ c ∈ cs, isBlank c = true := by
  simp [visible]

@[simp] theorem visible_trim (cs : List Char) : visible (trim cs) = visible cs := by
  obtain ⟨front, back, hfront, hback, hcs⟩ := exists_eq_append_trim cs
  have hvisible := congrArg visible hcs
  rw [visible_append, visible_append, (visible_eq_nil_iff front).mpr hfront,
    (visible_eq_nil_iff back).mpr hback, List.nil_append, List.append_nil] at hvisible
  exact hvisible.symm

end Text

open Text

theorem visible_spaced {separator : List Char} (h : ∀ c ∈ separator, isBlank c = true)
    (texts : List (List Char)) : visible (spaced separator texts) = texts.flatMap visible := by
  induction texts generalizing separator with
  | nil => rfl
  | cons text rest ih =>
      rw [spaced, visible_append, visible_append, (visible_eq_nil_iff separator).mpr h,
        ih isBlank_of_mem_space]
      rfl

theorem flatMap_visible_stretchTexts (gap : List Char) :
    (stretchTexts gap).flatMap visible = visible gap := by
  rw [← visible_trim, stretchTexts]
  split
  · rename_i htrim
    rw [htrim]
    rfl
  · simp

theorem flatMap_visible_pieceTexts (trail : List Char) (lexemes : List Lexeme) :
    (pieceTexts trail lexemes).flatMap visible = visible (lexemes.flatMap chars ++ trail) := by
  induction lexemes with
  | nil => exact flatMap_visible_stretchTexts trail
  | cons lexeme rest ih =>
      rw [pieceTexts_cons, List.flatMap_append, List.flatMap_cons, ih,
        flatMap_visible_stretchTexts]
      simp [chars]

/-- Sorting and spaces make no visible characters. -/
theorem length_visible_reconstruct (transcript : Transcript) :
    (visible transcript.reconstruct.toList).length =
      ((transcript.pieces.map fun piece => piece.2.toList).flatMap visible).length := by
  have hperm := List.mergeSort_perm transcript.pieces fun piece other => piece.1 ≤ other.1
  rw [Transcript.reconstruct, toList_intercalate_space, visible_spaced (by simp), List.map_map]
  exact ((hperm.map _).flatMap_right visible).length_eq

theorem map_text_ofLexemes (start : Nat) (lexemes : List Lexeme) :
    (Token.ofLexemes start lexemes).map (fun token => token.written.toList) =
      lexemes.map (·.text) := by
  induction lexemes generalizing start with
  | nil => rfl
  | cons lexeme rest ih => simp [Token.ofLexemes, ih]

/-- The visible characters in front of the members of clusters are those in
front of the clusters and those inside. -/
theorem length_visible_members (clusters : List Cluster) :
    (((clusters.map merged).map (·.text)).flatMap visible).length +
        ((clusters.flatMap members).flatMap fun lexeme => visible lexeme.lead).length =
      (visible ((clusters.map merged).flatMap chars)).length +
        (clusters.flatMap fun cluster => visible cluster.inside).length := by
  induction clusters with
  | nil => rfl
  | cons cluster rest ih =>
      have hfront : (cluster.members.flatMap fun lexeme => visible lexeme.lead) =
          visible cluster.merged.lead ++ visible cluster.inside := by
        cases cluster with
        | single lexeme => simp [members, merged, inside, visible]
        | compound tens joint units value => simp [members, merged, inside, Lexeme.compound]
      simp only [List.map_cons, List.flatMap_cons, List.flatMap_append, hfront, chars,
        visible_append, List.length_append]
      omega

namespace ClustersOf

variable {source : String} {clusters : List Cluster} {trail : List Char}

theorem map_text_pieces (h : ClustersOf source clusters trail) :
    (Transcript.ofSource source).pieces.map (fun piece => piece.2.toList) =
      (clusters.map merged).map (·.text) ++
        ((clusters.flatMap members).flatMap (fun lexeme => stretchTexts lexeme.lead) ++
          stretchTexts trail) := by
  have hstretches : (Transcript.ofSource source).unrecognized.map (fun stretch =>
      stretch.text.toList) =
        (clusters.flatMap members).flatMap (fun lexeme => stretchTexts lexeme.lead) ++
          stretchTexts trail := by
    have htexts := congrArg (List.map String.toList)
      (map_text_ofScan 0 (clusters.flatMap members) trail)
    rw [h.unrecognized_eq]
    simpa [Function.comp_def] using htexts
  have htokens : (Transcript.ofSource source).tokens.map (fun token => token.written.toList) =
      (clusters.map merged).map (·.text) := by
    rw [h.tokens_eq, Token.promoteKeywords,
      Token.map_promoteFrom (fun written _ => written.toList), map_text_ofLexemes]
  rw [Transcript.pieces, List.map_append, List.map_map, List.map_map, ← htokens, ← hstretches]
  rfl

/-- The characters inside the clusters are those that are put down twice. -/
theorem length_visible (h : ClustersOf source clusters trail) :
    (visible (Transcript.ofSource source).reconstruct.toList).length =
      (visible source.toList).length + (clusters.flatMap fun cluster =>
        visible cluster.inside).length := by
  have hmembers : ((clusters.flatMap members).flatMap
      (fun lexeme => stretchTexts lexeme.lead)).flatMap visible =
        (clusters.flatMap members).flatMap (fun lexeme => visible lexeme.lead) := by
    rw [List.flatMap_assoc]
    simp only [flatMap_visible_stretchTexts]
  have hclusters := length_visible_members clusters
  rw [length_visible_reconstruct, h.map_text_pieces, h.toList_eq, List.flatMap_append,
    List.flatMap_append, hmembers, flatMap_visible_stretchTexts, visible_append]
  simp only [List.length_append]
  omega

end ClustersOf

/-- A transcript is faithful to its text exactly if no token of it is broken. -/
theorem Transcript.faithful_iff (source : String) :
    (ofSource source).Faithful ↔ (ofSource source).Unbroken := by
  obtain ⟨clusters, trail, h⟩ := exists_clustersOf source
  rw [h.unbroken_iff]
  constructor
  · intro hfaithful cluster hcluster
    have hlength := congrArg List.length hfaithful.visible
    rw [source_ofSource, h.length_visible] at hlength
    have hnone := List.eq_nil_of_length_eq_zero (Nat.left_eq_add.mp hlength.symm)
    exact (visible_eq_nil_iff _).mp (List.flatMap_eq_nil_iff.mp hnone cluster hcluster)
  · intro hsolid
    have htext : (ofSource source).reconstruct.toList =
        spaced [] (pieceTexts trail (clusters.map merged)) := by
      rw [h.reconstruct_eq hsolid, toList_intercalate_space, List.map_map]
      simp
    obtain ⟨htokens, hunrecognized, hagain⟩ := h.congr (h.respaced htext) hsolid
      (solid_respaced hsolid []) (map_trimmed_respaced (by simp) clusters)
      (trim_respacedTrail (by simp) trail clusters)
    refine ⟨?_, htokens, ?_, hunrecognized, hagain⟩
    · rw [htext, visible_spaced (by simp), flatMap_visible_pieceTexts, source_ofSource, h.toList_eq]
    · rw [identifiers_ofSource, htokens, ← identifiers_ofSource]

/-- The junk inside the numeral is in the text of its token, and is put down
once more behind it. -/
theorem Transcript.not_faithful_of_junk_in_numeral :
    (ofSource "treinta # y dos").reconstruct = "treinta # y dos #" ∧
      ¬ (ofSource "treinta # y dos").Faithful := by
  have hpieces : (ofSource "treinta # y dos").pieces = [(0, "treinta # y dos"), (8, "#")] := by
    decide +kernel
  have hreconstruct : (ofSource "treinta # y dos").reconstruct = "treinta # y dos #" := by
    rw [reconstruct, hpieces, mergeSort_eq_of_perm (List.Perm.refl _) (by simp)]
    rfl
  refine ⟨hreconstruct, fun hfaithful => ?_⟩
  have hvisible := hfaithful.visible
  rw [hreconstruct, source_ofSource] at hvisible
  exact absurd hvisible (by decide)

end SpokenArithmetic

import SpokenArithmetic.Proofs.Cutting

/-!
# Clusters of lexemes

Merging makes one lexeme out of three, or leaves one as it is.  A cluster is
what becomes one lexeme, and the lexemes of every text fall into clusters
(`exists_clustered`).  Only the characters in front of a cluster can be spaced
anew without a change to what is recognized: the clusters are then still the
clusters of the lexemes (`Clustered.respaced`), and the lexemes are still cut
off where they were (`cut_respaced`), since a space ends every match.
-/

namespace SpokenArithmetic

/-- Lexemes that merging makes into one. -/
inductive Cluster where
  | single (lexeme : Lexeme)
  | compound (tens joint units : Lexeme) (value : Nat)

namespace Cluster

open Lexeme

/-- The lexemes of a cluster. -/
def members : Cluster → List Lexeme
  | single lexeme => [lexeme]
  | compound tens joint units _ => [tens, joint, units]

/-- The lexeme that a cluster becomes. -/
def merged : Cluster → Lexeme
  | single lexeme => lexeme
  | compound tens joint units value => Lexeme.compound tens joint units value

/-- The characters passed over between the lexemes of a cluster. -/
def inside : Cluster → List Char
  | single _ => []
  | compound _ joint units _ => joint.lead ++ units.lead

/-- A cluster with other characters in front of it. -/
def setLead (lead : List Char) : Cluster → Cluster
  | single lexeme => single { lexeme with lead := lead }
  | compound tens joint units value => compound { tens with lead := lead } joint units value

@[simp] theorem merged_setLead (lead : List Char) (cluster : Cluster) :
    (cluster.setLead lead).merged = { cluster.merged with lead := lead } := by
  cases cluster <;> rfl

@[simp] theorem inside_setLead (lead : List Char) (cluster : Cluster) :
    (cluster.setLead lead).inside = cluster.inside := by
  cases cluster <;> rfl

end Cluster

namespace Lexeme

/-- Whether a compound numeral begins with the first lexeme. -/
def opensCompound : List Lexeme → Bool
  | tens :: joint :: units :: _ => (compoundValue? tens joint units).isSome
  | _ => false

/-- A lexeme without the characters in front of it. -/
def bare (lexeme : Lexeme) : Lexeme :=
  { lexeme with lead := [] }

theorem opensCompound_map_bare (lexemes : List Lexeme) :
    opensCompound (lexemes.map bare) = opensCompound lexemes := by
  match lexemes with
  | [] => rfl
  | [_] => rfl
  | [_, _] => rfl
  | _ :: _ :: _ :: _ => rfl

end Lexeme

open Cluster Lexeme Vocabulary

/-- Whether some clusters are those that merging finds in their lexemes. -/
def Clustered : List Cluster → Prop
  | [] => True
  | .single lexeme :: rest =>
      opensCompound (lexeme :: rest.flatMap members) = false ∧ Clustered rest
  | .compound tens joint units value :: rest =>
      compoundValue? tens joint units = some value ∧ Clustered rest

/-- All lexemes fall into clusters. -/
theorem exists_clustered (lexemes : List Lexeme) :
    ∃ clusters, Clustered clusters ∧ clusters.flatMap members = lexemes := by
  induction lexemes using mergeCompounds.induct with
  | case1 tens joint units rest value hvalue ih =>
      obtain ⟨clusters, hclustered, rfl⟩ := ih
      exact ⟨.compound tens joint units value :: clusters, ⟨hvalue, hclustered⟩, rfl⟩
  | case2 tens joint units rest hvalue ih =>
      obtain ⟨clusters, hclustered, hmembers⟩ := ih
      refine ⟨.single tens :: clusters, ⟨?_, hclustered⟩, congrArg (tens :: ·) hmembers⟩
      rw [hmembers, opensCompound, hvalue]
      rfl
  | case3 few hfew =>
      refine ⟨few.map .single, ?_, ?_⟩
      · match few with
        | [] => trivial
        | [_] => exact ⟨rfl, trivial⟩
        | [_, _] => exact ⟨rfl, rfl, trivial⟩
        | tens :: joint :: units :: rest => exact absurd rfl (hfew tens joint units rest)
      · simp [List.flatMap_map, members]

/-- Merging goes from cluster to cluster. -/
theorem Clustered.mergeCompounds_eq {clusters : List Cluster} (h : Clustered clusters) :
    mergeCompounds (clusters.flatMap members) = clusters.map merged := by
  induction clusters with
  | nil => rfl
  | cons cluster rest ih =>
      cases cluster with
      | single lexeme =>
          obtain ⟨hopens, hrest⟩ := h
          rw [List.map_cons, ← ih hrest]
          refine mergeCompounds_cons fun joint units after hafter => ?_
          rw [show rest.flatMap members = joint :: units :: after from hafter, opensCompound,
            Option.isSome_eq_false_iff, Option.isNone_iff_eq_none] at hopens
          exact hopens
      | compound tens joint units value =>
          obtain ⟨hvalue, hrest⟩ := h
          rw [List.map_cons, ← ih hrest]
          simp only [List.flatMap_cons, members, List.cons_append, List.nil_append, mergeCompounds,
            hvalue]
          rfl

/-! ## Spacing -/

/-- What stands in front of a lexeme, with `separator` before it and one space
behind it if it is more than blanks. -/
def spacing (separator gap : List Char) : List Char :=
  separator ++ if Text.trim gap = [] then [] else Text.trim gap ++ [' ']

/-- Clusters with one space between two pieces, and with `separator` in front of
the first. -/
def respaced (separator : List Char) : List Cluster → List Cluster
  | [] => []
  | cluster :: rest =>
      cluster.setLead (spacing separator cluster.merged.lead) :: respaced [' '] rest

/-- What stands behind respaced clusters in place of `trail`. -/
def respacedTrail (separator trail : List Char) : List Cluster → List Char
  | [] => if Text.trim trail = [] then [] else separator ++ Text.trim trail
  | _ :: rest => respacedTrail [' '] trail rest

theorem map_bare_respaced (separator : List Char) (clusters : List Cluster) :
    ((respaced separator clusters).flatMap members).map bare =
      (clusters.flatMap members).map bare := by
  induction clusters generalizing separator with
  | nil => rfl
  | cons cluster rest ih =>
      simp only [respaced, List.flatMap_cons, List.map_append, ih]
      cases cluster <;> rfl

theorem Clustered.respaced {clusters : List Cluster} (h : Clustered clusters)
    (separator : List Char) : Clustered (respaced separator clusters) := by
  induction clusters generalizing separator with
  | nil => trivial
  | cons cluster rest ih =>
      cases cluster with
      | single lexeme =>
          refine ⟨?_, ih h.2 _⟩
          rw [← opensCompound_map_bare, List.map_cons, map_bare_respaced, ← h.1,
            ← opensCompound_map_bare (lexeme :: _), List.map_cons]
          rfl
      | compound tens joint units value => exact ⟨h.1, ih h.2 _⟩

/-! ## Cutting -/

theorem passed_of_isBlank {cs : List Char} (h : ∀ c ∈ cs, Text.isBlank c = true) : Passed cs :=
  fun c hc => opensMatch_of_isBlank (h c hc)

theorem isBlank_of_mem_space : ∀ c ∈ [' '], Text.isBlank c = true := by
  have hspace : Text.isBlank ' ' = true := by decide
  simpa using hspace

theorem passed_space : Passed [' '] :=
  passed_of_isBlank isBlank_of_mem_space

theorem Lexeme.Passed.trim {cs : List Char} (h : Passed cs) : Passed (Text.trim cs) := by
  obtain ⟨front, back, -, -, hcs⟩ := Text.exists_eq_append_trim cs
  rw [hcs, passed_append, passed_append] at h
  exact h.2.1

theorem Lexeme.Passed.spacing {separator gap : List Char} (hseparator : Passed separator)
    (hgap : Passed gap) : Passed (spacing separator gap) := by
  unfold SpokenArithmetic.spacing
  split
  · exact passed_append.mpr ⟨hseparator, passed_nil⟩
  · exact passed_append.mpr ⟨hseparator, passed_append.mpr ⟨hgap.trim, passed_space⟩⟩

/-- Behind the first cluster no match goes on. -/
theorem endsMatch_respaced (trail : List Char) (clusters : List Cluster) :
    EndsMatch (((respaced [' '] clusters).flatMap members).flatMap chars ++
      respacedTrail [' '] trail clusters) := by
  cases clusters with
  | nil =>
      simp only [respaced, respacedTrail, List.flatMap_nil, List.nil_append]
      split
      · exact endsMatch_nil
      · exact endsMatch_space _
  | cons cluster rest => cases cluster <;> exact endsMatch_space _

theorem cut_setLead {tail lead : List Char} {cluster : Cluster} (h : Cut tail cluster.members)
    (hlead : Passed lead) : Cut tail (cluster.setLead lead).members := by
  cases cluster <;> exact ⟨hlead, h.2⟩

/-- Respaced clusters are cut where the clusters are. -/
theorem cut_respaced {separator trail : List Char} (hseparator : Passed separator)
    {clusters : List Cluster} (h : Cut trail (clusters.flatMap members)) :
    Cut (respacedTrail separator trail clusters)
      ((respaced separator clusters).flatMap members) := by
  induction clusters generalizing separator with
  | nil => trivial
  | cons cluster rest ih =>
      obtain ⟨hcluster, hrest⟩ := cut_append.mp h
      rw [← List.nil_append (List.flatMap chars _ ++ trail)] at hcluster
      have hspaced := hcluster.append_tail (endsMatch_respaced trail rest)
      have hlead : Passed cluster.merged.lead := by
        cases cluster <;> exact hcluster.1
      exact cut_append.mpr ⟨cut_setLead hspaced (hseparator.spacing hlead), ih passed_space hrest⟩

theorem passed_respacedTrail {separator trail : List Char} (hseparator : Passed separator)
    (htrail : Passed trail) (clusters : List Cluster) :
    Passed (respacedTrail separator trail clusters) := by
  induction clusters generalizing separator with
  | nil =>
      unfold respacedTrail
      split
      · exact passed_nil
      · exact passed_append.mpr ⟨hseparator, htrail.trim⟩
  | cons cluster rest ih => exact ih passed_space

end SpokenArithmetic

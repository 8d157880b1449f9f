import Mathlib.Data.List.Perm.Basic
import Mathlib.Logic.Relation
import OperatorModes.Proofs.ClosedForm

/-!
# What one sibling hands on to the next

The fold hands what it has come to from each parameter to the next and on to the result, so an effect
is never met with a clean slate. What it makes of what it is handed is one of two things. If that or
some footprint of its own is `action` or `temporal`, the two are joined as if it had been met alone;
if not, a footprint joins and an arrow throws away what it was handed, be it more than it needs:

> `fold_eq_join_inferMode`, `fold_arrow_of_not_lasting`

Only the first is of consequence above, since the arrow around does not look at less than `action`. So
nothing is gained or lost by the threading: an arrow does with its parts, each inferred on its own,
what it would have done (`inferMode_arrow`). Their order cannot matter then, nor can repetition, at any
arrow of an effect (`Reshuffles`).
-/

namespace OperatorModes

namespace Qualifier

/-- What no arrow lowers. -/
def Lasting (q : Qualifier) : Prop := q = .action ∨ q = .temporal

instance (q : Qualifier) : Decidable q.Lasting :=
  inferInstanceAs (Decidable (q = .action ∨ q = .temporal))

theorem lasting_iff {q : Qualifier} : q.Lasting ↔ action ≤ q := action_le_iff.symm

theorem not_lasting_iff {q : Qualifier} : ¬ q.Lasting ↔ q ≤ defn := by
  rw [lasting_iff, ← not_le_defn, Decidable.not_not]

theorem lasting_join_iff {a b : Qualifier} : (a.join b).Lasting ↔ a.Lasting ∨ b.Lasting := by
  rw [← Decidable.not_iff_not, not_or, not_lasting_iff, not_lasting_iff, not_lasting_iff,
    join_le_iff]

end Qualifier

namespace Effect

/-! ## What an effect makes of what it is handed -/

theorem lasting_peak_iff {e : Effect} : e.peak.Lasting ↔ ∃ f ∈ e.leaves, f.classify.Lasting := by
  rw [← Decidable.not_iff_not, Qualifier.not_lasting_iff, peak_le_iff]
  simp only [not_exists, not_and, Qualifier.not_lasting_iff]

theorem fold_eq_join_inferMode {e : Effect} {before : Qualifier}
    (h : before.Lasting ∨ e.peak.Lasting) : e.fold before = before.join e.inferMode := by
  rw [fold_eq_of_action_le (Qualifier.lasting_iff.mp (Qualifier.lasting_join_iff.mpr h))]
  by_cases hpeak : e.peak.Lasting
  · rw [inferMode_of_action_le (Qualifier.lasting_iff.mp hpeak)]
  · -- All of the effect lies below what was handed on, whichever way it is inferred.
    have hbefore : .defn ≤ before :=
      Qualifier.le_trans (by decide) (Qualifier.lasting_iff.mp (h.resolve_right hpeak))
    have hle : e.peak ≤ .defn := Qualifier.not_lasting_iff.mp hpeak
    have hmode : e.inferMode ≤ .defn := by
      rwa [inferMode_le_iff_leaves (Qualifier.le_refl _), ← peak_le_iff]
    rw [Qualifier.join_eq_left_iff.mpr (Qualifier.le_trans hle hbefore),
      Qualifier.join_eq_left_iff.mpr (Qualifier.le_trans hmode hbefore)]

theorem fold_arrow_of_not_lasting {params : List Effect} {result : Effect} {before : Qualifier}
    (h : ¬ before.Lasting) : (arrow params result).fold before = (arrow params result).inferMode :=
  fold_arrow_eq_inferMode (Qualifier.not_lasting_iff.mp h)

/-! ## The parts of an arrow, each on its own -/

theorem mem_leavesOfAll {f : Footprint} :
    ∀ {es : List Effect}, f ∈ leavesOfAll es ↔ ∃ e ∈ es, f ∈ e.leaves
  | [] => by simp [leavesOfAll]
  | e :: es => by
    rw [leavesOfAll, List.mem_append, @mem_leavesOfAll f es]
    simp only [List.mem_cons, exists_eq_or_imp]

theorem mem_leaves_arrow {f : Footprint} {params : List Effect} {result : Effect} :
    f ∈ (arrow params result).leaves ↔ (∃ p ∈ params, f ∈ p.leaves) ∨ f ∈ result.leaves := by
  rw [leaves, List.mem_append, mem_leavesOfAll]

theorem strongest_inferMode_le_iff {params : List Effect} {result : Effect} {bound : Qualifier}
    (hb : .defn ≤ bound) :
    Qualifier.strongest ((params ++ [result]).map inferMode) ≤ bound ↔
      (arrow params result).peak ≤ bound := by
  simp only [Qualifier.strongest_le_iff, List.forall_mem_map, List.forall_mem_append,
    List.forall_mem_singleton, inferMode_le_iff_leaves hb, peak_le_iff, mem_leaves_arrow]
  constructor
  · rintro ⟨hparams, hresult⟩ f (⟨p, hp, hf⟩ | hf)
    · exact hparams p hp f hf
    · exact hresult f hf
  · intro h
    exact ⟨fun p hp f hf => h f (Or.inl ⟨p, hp, hf⟩), fun f hf => h f (Or.inr hf)⟩

/-- An arrow does with its parts, each inferred on its own, what it does with the fold of them. -/
theorem inferMode_arrow (params : List Effect) (result : Effect) :
    (arrow params result).inferMode =
      reduceArrow params result (.strongest ((params ++ [result]).map inferMode)) := by
  by_cases hpeak : (arrow params result).peak ≤ .defn
  · rw [reduceArrow_eq_ownMode ((strongest_inferMode_le_iff (Qualifier.le_refl _)).mpr hpeak),
      inferMode_of_le_defn hpeak]
  · rw [Qualifier.not_le_defn] at hpeak
    have hparts : .strongest ((params ++ [result]).map inferMode) = (arrow params result).peak :=
      Qualifier.eq_of_forall_le_iff (fun _ hb => strongest_inferMode_le_iff hb) hpeak
    rw [hparts, reduceArrow_of_action_le hpeak, inferMode_of_action_le hpeak]

/-! ## Order and repetition of parameters -/

/-- An arrow that reads the same decides the same where its parameters read the same, all in all. -/
theorem ownMode_arrow_congr {ps qs : List Effect} {r t : Effect}
    (hresult : r.resultReads = t.resultReads)
    (hparams : ∀ x, x ∈ ps.map resultReads ↔ x ∈ qs.map resultReads) :
    (arrow ps r).ownMode = (arrow qs t).ownMode := by
  have hreach : ∀ {es : List Effect} {e : Effect}, ReachesOut es e ↔
      ∃ n ∈ e.resultReads.flatten.toList, ∀ x ∈ es.map resultReads, n ∉ x.flatten := by
    intro es e
    unfold ReachesOut
    simp only [List.forall_mem_map]
  have hsame : ReachesOut ps r ↔ ReachesOut qs t := by
    rw [hreach, hreach, hresult]
    simp only [hparams]
  rw [ownMode, ownMode]
  simp only [hsame]

/-- One arrow of the effect, at any depth, has its parameters in another order, or one of them once
more. -/
inductive Reshuffles : Effect → Effect → Prop
  | permute {ps qs : List Effect} {r : Effect} (h : ps.Perm qs) :
      Reshuffles (arrow ps r) (arrow qs r)
  | duplicate {p : Effect} {ps : List Effect} {r : Effect} (h : p ∈ ps) :
      Reshuffles (arrow ps r) (arrow (p :: ps) r)
  | param {ps qs : List Effect} {p q r : Effect} (h : Reshuffles p q) :
      Reshuffles (arrow (ps ++ p :: qs) r) (arrow (ps ++ q :: qs) r)
  | result {ps : List Effect} {r t : Effect} (h : Reshuffles r t) :
      Reshuffles (arrow ps r) (arrow ps t)

namespace Reshuffles

variable {d e : Effect}

theorem resultReads_eq (h : Reshuffles d e) : d.resultReads = e.resultReads := by
  induction h with
  | permute _ => rfl
  | duplicate _ => rfl
  | param _ _ => rfl
  | result _ ih => exact ih

theorem mem_leaves_iff (h : Reshuffles d e) {f : Footprint} : f ∈ d.leaves ↔ f ∈ e.leaves := by
  induction h with
  | permute h => simp only [mem_leaves_arrow, h.mem_iff]
  | @duplicate p ps r hp =>
    simp only [mem_leaves_arrow, List.mem_cons, exists_eq_or_imp]
    exact or_congr_left (or_iff_right_of_imp fun hf => ⟨p, hp, hf⟩).symm
  | param _ ih =>
    simp only [mem_leaves_arrow, List.mem_append, List.mem_cons, or_and_right, exists_or,
      exists_eq_left, ih]
  | result _ ih => rw [mem_leaves_arrow, mem_leaves_arrow, ih]

theorem peak_eq (h : Reshuffles d e) : d.peak = e.peak := by
  have hbound : ∀ bound, d.peak ≤ bound ↔ e.peak ≤ bound := by
    intro bound
    rw [peak_le_iff, peak_le_iff]
    simp only [h.mem_leaves_iff]
  exact Qualifier.le_antisymm ((hbound _).mpr (Qualifier.le_refl _))
    ((hbound _).mp (Qualifier.le_refl _))

theorem ownMode_eq (h : Reshuffles d e) : d.ownMode = e.ownMode := by
  cases h with
  | permute h => exact ownMode_arrow_congr rfl fun x => (h.map resultReads).mem_iff
  | @duplicate p ps r hp =>
    refine ownMode_arrow_congr rfl fun x => ?_
    rw [List.map_cons, List.mem_cons]
    exact (or_iff_right_of_imp fun hx => hx ▸ List.mem_map_of_mem hp).symm
  | param h =>
    refine ownMode_arrow_congr rfl fun x => ?_
    rw [List.map_append, List.map_append, List.map_cons, List.map_cons, h.resultReads_eq]
  | result h => exact ownMode_arrow_congr h.resultReads_eq fun x => Iff.rfl

theorem inferMode_eq (h : Reshuffles d e) : d.inferMode = e.inferMode :=
  inferMode_eq_of_peak_eq h.peak_eq fun _ => h.ownMode_eq

end Reshuffles

theorem inferMode_eq_of_eqvGen {d e : Effect} (h : Relation.EqvGen Reshuffles d e) :
    d.inferMode = e.inferMode := by
  induction h with
  | rel _ _ hstep => exact hstep.inferMode_eq
  | refl _ => rfl
  | symm _ _ _ ih => exact ih.symm
  | trans _ _ _ _ _ ih ih' => exact ih.trans ih'

/-- **What the threading comes to.** If what is handed to an effect or some footprint in it is
`action` or `temporal`, the effect joins what it needs by itself. Otherwise a footprint joins what it
needs by itself, and an arrow comes to what it needs by itself and nothing else. So an arrow reduces
the join of what its parameters and its result need by themselves, and effects that differ only in the
order and the repetition of parameters, at any of their arrows, need the same. -/
theorem fold_threaded :
    (∀ (e : Effect) (before : Qualifier),
      before.Lasting ∨ (∃ f ∈ e.leaves, f.classify.Lasting) →
        e.fold before = before.join e.inferMode) ∧
    (∀ (e : Effect) (before : Qualifier),
      ¬ (before.Lasting ∨ ∃ f ∈ e.leaves, f.classify.Lasting) →
        e.fold before = match e with
          | leaf f => before.join f.classify
          | arrow _ _ => e.inferMode) ∧
    (∀ params result, (arrow params result).inferMode =
      reduceArrow params result (.strongest ((params ++ [result]).map inferMode))) ∧
    ∀ d e : Effect, Relation.EqvGen Reshuffles d e → d.inferMode = e.inferMode := by
  refine ⟨fun e before h => ?_, fun e before h => ?_, inferMode_arrow,
    fun _ _ => inferMode_eq_of_eqvGen⟩
  · rw [← lasting_peak_iff] at h
    exact fold_eq_join_inferMode h
  · cases e with
    | leaf f => rfl
    | arrow params result => exact fold_arrow_of_not_lasting (not_or.mp h).1

/-- An arrow inside another as its parameter, which hands `defn` to one that needs only `pureDef`; the
same with the parameters the other way round and one of them twice; and a temporal formula before and
behind an update. -/
theorem fold_threaded_nested :
    let x : Effect := leaf (.reading (.of ["x"]))
    let update : Effect := leaf (.updating .empty (.of ["y"]))
    let reaching : Effect := arrow [leaf .pure] x
    let closed : Effect := arrow [x, leaf .pure] x
    let outer : Effect := arrow [reaching, closed] x
    let outer' : Effect := arrow [arrow [leaf .pure, x, x] x, reaching] x
    reaching.inferMode = .defn ∧ closed.fold .defn = .pureDef ∧ x.fold .defn = .defn ∧
      closed.fold .temporal = .temporal ∧ (arrow [x] update).fold .temporal = .temporal ∧
      (arrow [x] update).fold .defn = .action ∧ outer.inferMode = .pureDef ∧
      Relation.EqvGen Reshuffles outer outer' ∧ outer.inferMode = outer'.inferMode := by
  intro x update reaching closed outer outer'
  obtain ⟨hlasting, hnot, harrow, hsame⟩ := fold_threaded
  have houter : Relation.EqvGen Reshuffles outer outer' := by
    have hswap : Reshuffles outer (arrow [closed, reaching] x) := .permute (by decide)
    have htwice : Reshuffles (arrow ([] ++ [closed, reaching]) x)
        (arrow ([] ++ [arrow [x, x, leaf .pure] x, reaching]) x) :=
      .param (.duplicate List.mem_cons_self)
    have hinside : Reshuffles (arrow ([] ++ [arrow [x, x, leaf .pure] x, reaching]) x)
        (arrow ([] ++ [arrow [leaf .pure, x, x] x, reaching]) x) := .param (.permute (by decide))
    exact .trans _ _ _ (.rel _ _ hswap) (.trans _ _ _ (.rel _ _ htwice) (.rel _ _ hinside))
  refine ⟨by decide, (hnot closed .defn (by decide)).trans (by decide),
    (hnot x .defn (by decide)).trans (by decide),
    (hlasting closed .temporal (by decide)).trans (by decide),
    (hlasting _ .temporal (by decide)).trans (by decide),
    (hlasting _ .defn (by decide)).trans (by decide), (harrow _ _).trans (by decide), houter,
    hsame _ _ houter⟩

end Effect

end OperatorModes

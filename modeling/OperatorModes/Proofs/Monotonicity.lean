import OperatorModes.Proofs.Representation

/-!
# More variables

Whoever touches more should need no less, and by and large that is so. Two things run against it. An
update hides a temporal operator in the same footprint, and `action` is less than `temporal`; and what
the result of a parameter reads the operator may read as well, so the more of it there is, the less
of the operator's own reads lies outside. Where neither happens the qualifier can only rise, and
where only the second does it can only fall.

The fold is of no use for this, since what it carries into a nested arrow may come out lower. By the
closed form two effects compare as their peaks do, short of what lies below `defn`, and as their
roots do on their own:

> `inferMode_le_inferMode`: peaks that keep to the same bounds, and roots in order

and a footprint by footprint comparison of the leaves settles the first of the two.
-/

namespace OperatorModes

/-! ## Payloads -/

/-- Every variable of the first payload is one of the second. -/
def Payload.Within (p q : Payload) : Prop := ∀ n ∈ p.flatten.toList, n ∈ q.flatten

instance (p q : Payload) : Decidable (p.Within q) :=
  inferInstanceAs (Decidable (∀ n ∈ p.flatten.toList, n ∈ q.flatten))

namespace Payload

variable {p q : Payload}

theorem Alike.within (h : p.Alike q) : p.Within q := by
  intro n hn
  exact mem_flatten.mpr (h.mentions_iff.mp (mem_flatten.mp hn))

theorem Within.occupied (h : p.Within q) (hp : (!p.isEmpty) = true) : (!q.isEmpty) = true := by
  rw [Bool.not_eq_true', ← Bool.not_eq_true, isEmpty_iff] at hp ⊢
  exact fun hq => hp fun n hn => hq n (mem_flatten.mp (h n (mem_flatten.mpr hn)))

end Payload

/-! ## Footprints -/

namespace Footprint

variable {f g : Footprint}

/-- Each component gains variables or stays, and no update comes to a footprint that was temporal
without one. -/
structure GrowsTo (f g : Footprint) : Prop where
  reads : f.reads.Within g.reads
  updates : f.updates.Within g.updates
  temporal : f.temporal.Within g.temporal
  unhidden : f.isTemporal = true → f.isAction = false → g.isAction = false

instance (f g : Footprint) : Decidable (f.GrowsTo g) :=
  decidable_of_iff
    (f.reads.Within g.reads ∧ f.updates.Within g.updates ∧ f.temporal.Within g.temporal ∧
      (f.isTemporal = true → f.isAction = false → g.isAction = false))
    ⟨fun h => ⟨h.1, h.2.1, h.2.2.1, h.2.2.2⟩,
      fun h => ⟨h.reads, h.updates, h.temporal, h.unhidden⟩⟩

theorem GrowsTo.classify_le (h : f.GrowsTo g) : f.classify ≤ g.classify := by
  cases haction : f.isAction with
  | true =>
    have hg : g.isAction = true := h.updates.occupied haction
    rw [classify, classify, haction, hg]
    exact Qualifier.le_refl _
  | false =>
    cases htemporal : f.isTemporal with
    | true =>
      have hg : g.isTemporal = true := h.temporal.occupied htemporal
      have hstill : g.isAction = false := h.unhidden htemporal haction
      rw [classify, classify, haction, htemporal, hstill, hg]
      exact Qualifier.le_refl _
    | false =>
      cases hreads : f.readsState with
      | true =>
        have hg : g.readsState = true := h.reads.occupied hreads
        rw [classify, classify, haction, htemporal, hreads, hg]
        cases g.isAction <;> cases g.isTemporal <;> decide
      | false =>
        rw [classify, haction, htemporal, hreads]
        exact Qualifier.pureVal_le _

/-- The reads gain variables or stay, and nothing else changes. -/
structure ReadsMore (f g : Footprint) : Prop where
  reads : f.reads.Within g.reads
  updates : f.updates.Alike g.updates
  temporal : f.temporal.Alike g.temporal

theorem Alike.readsMore (h : f.Alike g) : f.ReadsMore g :=
  ⟨h.reads.within, h.updates, h.temporal⟩

/-- By its reads a footprint comes to no more than `val`. -/
theorem ReadsMore.classify_le (h : f.ReadsMore g) {bound : Qualifier} (hb : .defn ≤ bound)
    (hf : f.classify ≤ bound) : g.classify ≤ bound := by
  rw [classify, isAction, isTemporal, h.updates.isEmpty_eq, h.temporal.isEmpty_eq] at hf
  rw [classify, isAction, isTemporal]
  split
  · next haction => rwa [if_pos haction] at hf
  · next haction =>
    rw [if_neg haction] at hf
    split
    · next htemporal => rwa [if_pos htemporal] at hf
    · refine Qualifier.le_trans ?_ hb
      split <;> decide

end Footprint

namespace Effect

/-! ## Comparing by peak and root -/

/-- A bound on the footprints of one effect bounds those that correspond to them. -/
theorem peak_le_of_forall₂ {r : Footprint → Footprint → Prop} {bound : Qualifier} {d e : Effect}
    (h : List.Forall₂ r d.leaves e.leaves)
    (hr : ∀ f g, r f g → g.classify ≤ bound → f.classify ≤ bound) (he : e.peak ≤ bound) :
    d.peak ≤ bound := by
  rw [peak_le_iff] at he ⊢
  intro f hf
  obtain ⟨g, hg, hfg⟩ := exists_mem_of_forall₂ h f hf
  exact hr f g hfg (he g hg)

theorem inferMode_le_inferMode {d e : Effect}
    (hpeak : ∀ bound, .defn ≤ bound → e.peak ≤ bound → d.peak ≤ bound)
    (hown : d.ownMode ≤ e.ownMode) : d.inferMode ≤ e.inferMode := by
  by_cases he : e.peak ≤ .defn
  · have hd : d.peak ≤ .defn := hpeak .defn (Qualifier.le_refl _) he
    rw [inferMode_of_le_defn hd, inferMode_of_le_defn he]
    exact hown
  · rw [Qualifier.not_le_defn] at he
    have hdefn : .defn ≤ e.peak := Qualifier.le_trans (by decide) he
    rw [inferMode_of_action_le he, inferMode_le_iff_leaves hdefn, ← peak_le_iff]
    exact hpeak e.peak hdefn (Qualifier.le_refl _)

theorem ownMode_arrow_le {ps qs : List Effect} {d e : Effect}
    (h : ReachesOut ps d → ReachesOut qs e) : (arrow ps d).ownMode ≤ (arrow qs e).ownMode := by
  rw [ownMode, ownMode]
  split
  · next hout =>
    rw [if_pos (h hout)]
    exact Qualifier.le_refl _
  · split <;> decide

/-- To read more, and to have parameters that read less, is to reach out all the more. -/
theorem ReachesOut.mono {ps qs : List Effect} {d e : Effect}
    (hreads : d.resultReads.Within e.resultReads)
    (hparams : ∀ q ∈ qs, ∃ p ∈ ps, q.resultReads.Within p.resultReads) (h : ReachesOut ps d) :
    ReachesOut qs e := by
  obtain ⟨n, hn, hout⟩ := h
  refine ⟨n, hreads n hn, fun q hq hmem => ?_⟩
  obtain ⟨p, hp, hwithin⟩ := hparams q hq
  exact hout p hp (hwithin n hmem)

/-! ## More of everything -/

/-- If both are arrows, the results of their parameters read the same, one by one. -/
def SameParameterReads : Effect → Effect → Prop
  | arrow ps _, arrow qs _ =>
    List.Forall₂ (fun p q => p.resultReads.Alike q.resultReads) ps qs
  | _, _ => True

theorem Corresponds.ownMode_le : ∀ {d e : Effect}, d.Corresponds Footprint.GrowsTo e →
    d.SameParameterReads e → d.ownMode ≤ e.ownMode
  | leaf _, leaf _, h, _ => h.classify_le
  | arrow ps d, arrow qs e, h, hparams => by
    have hreads : d.resultReads.Within e.resultReads :=
      h.2.resultReads fun _ _ hfg => hfg.reads
    refine ownMode_arrow_le (ReachesOut.mono hreads fun q hq => ?_)
    obtain ⟨p, hp, hpq⟩ := exists_mem_of_forall₂ hparams.flip q hq
    exact ⟨p, hp, (Payload.Alike.symm hpq).within⟩
  | leaf _, arrow _ _, h, _ => h.elim
  | arrow _ _, leaf _, h, _ => h.elim

theorem Corresponds.inferMode_le {d e : Effect} (h : d.Corresponds Footprint.GrowsTo e)
    (hparams : d.SameParameterReads e) : d.inferMode ≤ e.inferMode := by
  refine inferMode_le_inferMode (fun bound _ => ?_) (h.ownMode_le hparams)
  exact peak_le_of_forall₂ h.forall₂_leaves fun f g hfg hg => Qualifier.le_trans hfg.classify_le hg

/-! ## More to read for parameters -/

/-- The innermost result reads more, and nothing else changes. -/
def ReadsMore : Effect → Effect → Prop
  | leaf f, leaf g => f.ReadsMore g
  | arrow ps d, arrow qs e => AllAlike ps qs ∧ d.ReadsMore e
  | _, _ => False

theorem ReadsMore.corresponds :
    ∀ {p q : Effect}, p.ReadsMore q → p.Corresponds Footprint.ReadsMore q
  | leaf _, leaf _, h => h
  | arrow _ _, arrow _ _, h =>
    ⟨AllCorrespond.imp (fun _ _ hfg => hfg.readsMore) h.1, ReadsMore.corresponds h.2⟩
  | leaf _, arrow _ _, h => h.elim
  | arrow _ _, leaf _, h => h.elim

theorem ReadsMore.allCorrespond :
    ∀ {ps qs : List Effect}, List.Forall₂ ReadsMore ps qs → AllCorrespond Footprint.ReadsMore ps qs
  | [], [], _ => trivial
  | _ :: _, _ :: _, .cons h hrest => ⟨h.corresponds, ReadsMore.allCorrespond hrest⟩

theorem ReadsMore.inferMode_arrow_le {ps qs : List Effect} {r t : Effect}
    (hparams : List.Forall₂ ReadsMore ps qs) (hresult : r.Alike t) :
    (arrow qs t).inferMode ≤ (arrow ps r).inferMode := by
  have hcorr : (arrow ps r).Corresponds Footprint.ReadsMore (arrow qs t) :=
    ⟨ReadsMore.allCorrespond hparams, hresult.imp fun _ _ hfg => hfg.readsMore⟩
  refine inferMode_le_inferMode (fun bound hb => ?_) (ownMode_arrow_le (ReachesOut.mono ?_ ?_))
  · exact peak_le_of_forall₂ hcorr.forall₂_leaves.flip fun f g hfg hg => hfg.classify_le hb hg
  · exact (Payload.Alike.symm hresult.resultReads).within
  · intro p hp
    obtain ⟨q, hq, hpq⟩ := exists_mem_of_forall₂ hparams p hp
    exact ⟨q, hq, hpq.corresponds.resultReads fun _ _ hfg => hfg.reads⟩

/-- **Monotonicity.** When footprints gain variables, the effect needs no less than before, provided
that no update comes to a footprint that was temporal without one and that what the results of the
root's parameters read stays as it is. When nothing but these reads grows, the effect needs no more
than before. -/
theorem inferMode_monotone :
    (∀ d e : Effect, d.Corresponds Footprint.GrowsTo e → d.SameParameterReads e →
      d.inferMode ≤ e.inferMode) ∧
    ∀ (ps qs : List Effect) (r t : Effect), List.Forall₂ ReadsMore ps qs → r.Alike t →
      (arrow qs t).inferMode ≤ (arrow ps r).inferMode :=
  ⟨fun _ _ h hparams => h.inferMode_le hparams,
    fun _ _ _ _ hparams hresult => ReadsMore.inferMode_arrow_le hparams hresult⟩

/-- One operator more of whose result's reads lie outside, and one fewer of whose do. -/
theorem inferMode_monotone_both_ways :
    let x : Effect := leaf (.reading (.of ["x"]))
    let xy : Effect := leaf (.reading (.union [.of ["y"], .of ["x"]]))
    let nested : Effect → Effect := fun e => arrow [leaf .pure] e
    (arrow [x] x).inferMode = .pureDef ∧ (arrow [x] xy).inferMode = .defn ∧
      (arrow [x] x).inferMode ≤ (arrow [x] xy).inferMode ∧
      (arrow [nested x] xy).inferMode = .defn ∧ (arrow [nested xy] xy).inferMode = .pureDef ∧
      (arrow [nested xy] xy).inferMode ≤ (arrow [nested x] xy).inferMode := by
  intro x xy nested
  obtain ⟨hmore, hfewer⟩ := inferMode_monotone
  refine ⟨by decide, by decide, ?_, by decide, by decide, ?_⟩
  · exact hmore _ _ (by decide) (.cons rfl .nil)
  · exact hfewer [nested x] [nested xy] xy xy
      (.cons ⟨by decide, by decide, by decide, by decide⟩ .nil) (by decide)

/-- Neither condition on what may grow can be left out. -/
example :
    (leaf (.timed (.of ["x"]))).inferMode = .temporal ∧
      (leaf { updates := .of ["x"], temporal := .of ["x"] }).inferMode = .action ∧
      (arrow [leaf .pure] (leaf (.reading (.of ["x"])))).inferMode = .defn ∧
      (arrow [leaf (.reading (.of ["x"]))] (leaf (.reading (.of ["x"])))).inferMode = .pureDef := by
  decide

end Effect

end OperatorModes

import OperatorModes.Proofs.Representation
import OperatorModes.Proofs.Traversal

/-!
# Effects read back from their text

The text of an effect sets no parentheses around a result or around a parameter that is an arrow, and
it puts the same comma between two parameters and between two variables. It can be read in one way
only all the same, as long as no variable has a comma or a closing bracket in its name:

> `render_eq_iff`: two such effects are written as the same text exactly if they have the same arrows
> and the same variables in each component of each footprint.

Every statement on the way is about a text with something after it, since that is how the pieces
occur: what is written first can be told, and so can where it ends. A footprint ends at a bracket (or
is `Pure`) unless ` & ` follows; after an effect come only a comma, a closing parenthesis or the end,
none of which is a space.
-/

namespace OperatorModes

/-! ## Lists with separators -/

section

variable {α : Type}

/-- Two texts that are the same are so up to the first occurrence of a character and behind it. -/
theorem append_cons_inj_of_not_mem {c : α} {s t : List α} :
    ∀ {a b : List α}, c ∉ a → c ∉ b → a ++ c :: s = b ++ c :: t → a = b ∧ s = t
  | [], [], _, _, h => ⟨rfl, (List.cons.inj h).2⟩
  | [], _ :: _, _, hb, h => by
    obtain ⟨rfl, -⟩ := List.cons.inj h
    exact absurd List.mem_cons_self hb
  | _ :: _, [], ha, _, h => by
    obtain ⟨rfl, -⟩ := List.cons.inj h
    exact absurd List.mem_cons_self ha
  | x :: a, y :: b, ha, hb, h => by
    obtain ⟨rfl, hrest⟩ := List.cons.inj h
    obtain ⟨rfl, hst⟩ := append_cons_inj_of_not_mem (List.not_mem_of_not_mem_cons ha)
      (List.not_mem_of_not_mem_cons hb) hrest
    exact ⟨rfl, hst⟩

theorem intercalate_cons_cons_append {c : α} {sep a a' x : List α} {l : List (List α)} :
    (c :: sep).intercalate (a :: a' :: l) ++ x =
      a ++ c :: (sep ++ ((c :: sep).intercalate (a' :: l) ++ x)) := by
  rw [List.intercalate_cons_cons, List.append_assoc, List.append_assoc, List.cons_append]

/-- Pieces without the character `c`, with `c` and more between each two and `c` alone after the
last, can be told from what follows. -/
theorem intercalate_append_inj {c : α} {sep s t : List α} (hs : ¬ sep <+: s) (ht : ¬ sep <+: t) :
    ∀ {l m : List (List α)}, l ≠ [] → m ≠ [] → (∀ a ∈ l, c ∉ a) → (∀ b ∈ m, c ∉ b) →
      (c :: sep).intercalate l ++ c :: s = (c :: sep).intercalate m ++ c :: t → l = m ∧ s = t
  | [], _, hl, _, _, _, _ => absurd rfl hl
  | _, [], _, hm, _, _, _ => absurd rfl hm
  | [a], [b], _, _, ha, hb, h => by
    rw [List.intercalate_singleton, List.intercalate_singleton] at h
    obtain ⟨rfl, hst⟩ := append_cons_inj_of_not_mem (ha a List.mem_cons_self)
      (hb b List.mem_cons_self) h
    exact ⟨rfl, hst⟩
  -- Where one list ends and the other goes on, the rest of the separator would follow the one.
  | [a], b :: _ :: _, _, _, ha, hb, h => by
    rw [List.intercalate_singleton, intercalate_cons_cons_append] at h
    obtain ⟨-, hst⟩ := append_cons_inj_of_not_mem (ha a List.mem_cons_self)
      (hb b List.mem_cons_self) h
    exact absurd ⟨_, hst.symm⟩ hs
  | a :: _ :: _, [b], _, _, ha, hb, h => by
    rw [List.intercalate_singleton, intercalate_cons_cons_append] at h
    obtain ⟨-, hst⟩ := append_cons_inj_of_not_mem (ha a List.mem_cons_self)
      (hb b List.mem_cons_self) h
    exact absurd ⟨_, hst⟩ ht
  | a :: _ :: _, b :: _ :: _, _, _, ha, hb, h => by
    rw [intercalate_cons_cons_append, intercalate_cons_cons_append] at h
    rw [List.forall_mem_cons] at ha hb
    obtain ⟨rfl, hrest⟩ := append_cons_inj_of_not_mem ha.1 hb.1 h
    obtain ⟨hlm, hst⟩ := intercalate_append_inj hs ht (List.cons_ne_nil _ _)
      (List.cons_ne_nil _ _) ha.2 hb.2 (List.append_cancel_left hrest)
    exact ⟨congrArg (a :: ·) hlm, hst⟩

theorem not_mem_intercalate {c : α} {sep : List α} (hsep : c ∉ sep) :
    ∀ {l : List (List α)}, (∀ a ∈ l, c ∉ a) → c ∉ sep.intercalate l
  | [], _ => List.not_mem_nil
  | [a], h => by
    rw [List.intercalate_singleton]
    exact h a List.mem_cons_self
  | a :: a' :: l, h => by
    rw [List.intercalate_cons_cons, List.mem_append, List.mem_append]
    rw [List.forall_mem_cons] at h
    exact not_or.mpr ⟨not_or.mpr ⟨h.1, hsep⟩, not_mem_intercalate hsep h.2⟩

/-- A character at the end of each piece may be taken for part of the separators. -/
theorem intercalate_map_concat {c : α} {sep : List α} :
    ∀ {l : List (List α)}, l ≠ [] →
      sep.intercalate (l.map (· ++ [c])) = (c :: sep).intercalate l ++ [c]
  | [], h => absurd rfl h
  | [a], _ => by
    rw [List.map_singleton, List.intercalate_singleton, List.intercalate_singleton]
  | a :: a' :: l, _ => by
    have ih : sep.intercalate ((a' ++ [c]) :: l.map (· ++ [c])) =
        (c :: sep).intercalate (a' :: l) ++ [c] :=
      intercalate_map_concat (List.cons_ne_nil a' l)
    rw [List.map_cons, List.map_cons, List.intercalate_cons_cons, List.intercalate_cons_cons, ih]
    simp only [List.append_assoc, List.cons_append, List.nil_append]

end

/-! ## First characters -/

/-- The text begins with one of the characters. -/
def StartsIn (cs text : List Char) : Prop := ∃ c ∈ cs, ∃ rest, text = c :: rest

theorem StartsIn.mono {cs ds text : List Char} (h : StartsIn cs text) (hsub : cs ⊆ ds) :
    StartsIn ds text := by
  obtain ⟨c, hc, rest, htext⟩ := h
  exact ⟨c, hsub hc, rest, htext⟩

theorem StartsIn.append_ne {cs text s t : List Char} {x : Char} (h : StartsIn cs text)
    (hx : x ∉ cs) : text ++ s ≠ x :: t := by
  obtain ⟨c, hc, rest, rfl⟩ := h
  intro heq
  obtain ⟨rfl, -⟩ := List.cons.inj heq
  exact hx hc

/-! ## Payloads -/

/-- No variable has a comma or a closing bracket in its name. -/
def Payload.Legible (p : Payload) : Prop :=
  ∀ n ∈ p.flatten.toList, ',' ∉ n.toList ∧ ']' ∉ n.toList

instance (p : Payload) : Decidable p.Legible :=
  inferInstanceAs (Decidable (∀ n ∈ p.flatten.toList, ',' ∉ n.toList ∧ ']' ∉ n.toList))

namespace Payload

variable {p q : Payload}

theorem alike_of_isEmpty (hp : p.isEmpty = true) (hq : q.isEmpty = true) : p.Alike q :=
  (isEmpty_iff_flatten.mp hp).trans (isEmpty_iff_flatten.mp hq).symm

theorem toList_render :
    p.render.toList = ", ".toList.intercalate (p.flatten.toList.map String.toList) :=
  String.toList_intercalate

theorem Legible.not_mem_render (h : p.Legible) : ']' ∉ p.render.toList := by
  rw [toList_render]
  exact not_mem_intercalate (by decide) (List.forall_mem_map.mpr fun n hn => (h n hn).2)

theorem Legible.alike_of_render_eq (hp : p.Legible) (hq : q.Legible) (hpe : ¬ p.isEmpty = true)
    (hqe : ¬ q.isEmpty = true) (h : p.render = q.render) : p.Alike q := by
  have hnames {p : Payload} (hp : p.Legible) : ∀ a ∈ p.flatten.toList.map String.toList, ',' ∉ a :=
    List.forall_mem_map.mpr fun n hn => (hp n hn).1
  have hne {p : Payload} (hpe : ¬ p.isEmpty = true) : p.flatten.toList.map String.toList ≠ [] :=
    fun hnil => hpe (isEmpty_iff_flatten.mpr (NameSet.ext_toList (List.map_eq_nil_iff.mp hnil)))
  -- A comma after the last name as after any other makes it a list with separators.
  have htext : p.render.toList ++ [','] = q.render.toList ++ [','] := by rw [h]
  rw [toList_render, toList_render] at htext
  obtain ⟨hsame, -⟩ := intercalate_append_inj (by decide) (by decide) (hne hpe) (hne hqe)
    (hnames hp) (hnames hq) htext
  exact NameSet.ext_toList
    ((List.map_inj_right fun _ _ hxy => String.toList_injective hxy).mp hsame)

end Payload

/-! ## Footprints -/

/-- No variable in any component has a comma or a closing bracket in its name. -/
structure Footprint.Legible (f : Footprint) : Prop where
  reads : f.reads.Legible
  updates : f.updates.Legible
  temporal : f.temporal.Legible

instance (f : Footprint) : Decidable f.Legible :=
  decidable_of_iff (f.reads.Legible ∧ f.updates.Legible ∧ f.temporal.Legible)
    ⟨fun h => ⟨h.1, h.2.1, h.2.2⟩, fun h => ⟨h.reads, h.updates, h.temporal⟩⟩

namespace Footprint

/-- One component up to its closing bracket, or nothing when no variable occurs in it. -/
def unclosed (label : String) (p : Payload) : List (List Char) :=
  if p.isEmpty then [] else [label.toList ++ '[' :: p.render.toList]

/-- The components up to their closing brackets. -/
def pieces (f : Footprint) : List (List Char) :=
  unclosed "Read" f.reads ++ unclosed "Update" f.updates ++ unclosed "Temporal" f.temporal

variable {f g : Footprint} {label : String} {p q : Payload}

theorem map_component :
    (component label p).map String.toList = (unclosed label p).map (· ++ [']']) := by
  unfold component unclosed
  split
  · rfl
  · simp [String.toList_append]

theorem map_components :
    (component "Read" f.reads ++ component "Update" f.updates
      ++ component "Temporal" f.temporal).map String.toList = f.pieces.map (· ++ [']']) := by
  rw [pieces, List.map_append, List.map_append, List.map_append, List.map_append,
    map_component, map_component, map_component]

theorem render_of_pieces_eq_nil (h : f.pieces = []) : f.render = "Pure" := by
  have hnone := map_components (f := f)
  rw [h, List.map_nil, List.map_eq_nil_iff] at hnone
  rw [render, hnone]

theorem toList_render (h : f.pieces ≠ []) :
    f.render.toList = (']' :: " & ".toList).intercalate f.pieces ++ [']'] := by
  rw [← intercalate_map_concat h, ← map_components, ← String.toList_intercalate, render]
  split
  · next hnone =>
    have hsome := map_components (f := f)
    rw [hnone] at hsome
    exact absurd (List.map_eq_nil_iff.mp hsome.symm) h
  · rfl

theorem forall_mem_unclosed {P : List Char → Prop}
    (h : P (label.toList ++ '[' :: p.render.toList)) : ∀ a ∈ unclosed label p, P a := by
  intro a ha
  unfold unclosed at ha
  split at ha
  · exact absurd ha List.not_mem_nil
  · rw [List.mem_singleton.mp ha]
    exact h

theorem not_mem_unclosed (hlabel : ']' ∉ label.toList) (hp : p.Legible) :
    ∀ a ∈ unclosed label p, ']' ∉ a := by
  refine forall_mem_unclosed ?_
  rw [List.mem_append, List.mem_cons]
  exact not_or.mpr ⟨hlabel, not_or.mpr ⟨by decide, hp.not_mem_render⟩⟩

theorem Legible.not_mem_pieces (h : f.Legible) : ∀ a ∈ f.pieces, ']' ∉ a := by
  unfold pieces
  rw [List.forall_mem_append, List.forall_mem_append]
  exact ⟨⟨not_mem_unclosed (by decide) h.reads, not_mem_unclosed (by decide) h.updates⟩,
    not_mem_unclosed (by decide) h.temporal⟩

/-- A component in front of others can be told from them by its label. -/
theorem unclosed_append_inj {l m : List (List Char)} (hp : p.Legible) (hq : q.Legible)
    (hl : ∀ a ∈ l, ¬ label.toList <+: a) (hm : ∀ a ∈ m, ¬ label.toList <+: a)
    (h : unclosed label p ++ l = unclosed label q ++ m) : p.Alike q ∧ l = m := by
  unfold unclosed at h
  split at h
  · next hpe =>
    split at h
    · next hqe => exact ⟨Payload.alike_of_isEmpty hpe hqe, h⟩
    · subst h
      exact absurd (List.prefix_append _ _) (hl _ List.mem_cons_self)
  · next hpe =>
    split at h
    · subst h
      exact absurd (List.prefix_append _ _) (hm _ List.mem_cons_self)
    · next hqe =>
      obtain ⟨hhead, hrest⟩ := List.cons.inj h
      have hrender : p.render = q.render :=
        String.toList_injective (List.cons.inj (List.append_cancel_left hhead)).2
      exact ⟨hp.alike_of_render_eq hq hpe hqe hrender, hrest⟩

theorem Legible.alike_of_pieces_eq (hf : f.Legible) (hg : g.Legible) (h : f.pieces = g.pieces) :
    f.Alike g := by
  have hlater (f : Footprint) : ∀ a ∈ unclosed "Update" f.updates ++ unclosed "Temporal" f.temporal,
      ¬ "Read".toList <+: a :=
    List.forall_mem_append.mpr ⟨forall_mem_unclosed (by simp), forall_mem_unclosed (by simp)⟩
  have hlast (f : Footprint) : ∀ a ∈ unclosed "Temporal" f.temporal, ¬ "Update".toList <+: a :=
    forall_mem_unclosed (by simp)
  rw [pieces, pieces, List.append_assoc, List.append_assoc] at h
  obtain ⟨hreads, h⟩ := unclosed_append_inj hf.reads hg.reads (hlater f) (hlater g) h
  obtain ⟨hupdates, h⟩ := unclosed_append_inj hf.updates hg.updates (hlast f) (hlast g) h
  rw [← List.append_nil (unclosed _ f.temporal), ← List.append_nil (unclosed _ g.temporal)] at h
  obtain ⟨htemporal, -⟩ := unclosed_append_inj hf.temporal hg.temporal (List.forall_mem_nil _)
    (List.forall_mem_nil _) h
  exact ⟨hreads, hupdates, htemporal⟩

theorem startsIn_of_mem_pieces : ∀ a ∈ f.pieces, StartsIn ['R', 'U', 'T'] a := by
  unfold pieces
  rw [List.forall_mem_append, List.forall_mem_append]
  refine ⟨⟨?_, ?_⟩, ?_⟩
  · exact forall_mem_unclosed ⟨'R', by decide, _, rfl⟩
  · exact forall_mem_unclosed ⟨'U', by decide, _, rfl⟩
  · exact forall_mem_unclosed ⟨'T', by decide, _, rfl⟩

theorem startsIn_of_pieces_ne_nil (h : f.pieces ≠ []) :
    StartsIn ['R', 'U', 'T'] f.render.toList := by
  obtain ⟨a, l, hpieces⟩ := List.exists_cons_of_ne_nil h
  obtain ⟨c, hc, rest, rfl⟩ := startsIn_of_mem_pieces a (hpieces ▸ List.mem_cons_self)
  -- The text begins as the first component does, whether or not another follows.
  rw [toList_render h, hpieces]
  cases l with
  | nil => exact ⟨c, hc, _, by rw [List.intercalate_singleton, List.cons_append]⟩
  | cons b l => exact ⟨c, hc, _, intercalate_cons_cons_append⟩

theorem startsIn_render : StartsIn ['P', 'R', 'U', 'T'] f.render.toList := by
  by_cases h : f.pieces = []
  · rw [render_of_pieces_eq_nil h]
    exact ⟨'P', by decide, _, rfl⟩
  · exact (startsIn_of_pieces_ne_nil h).mono (List.subset_cons_self _ _)

/-- A footprint can be told from what follows, unless that goes on like one more component. -/
theorem Legible.render_append_inj {s t : List Char} (hf : f.Legible) (hg : g.Legible)
    (hs : ¬ " & ".toList <+: s) (ht : ¬ " & ".toList <+: t)
    (h : f.render.toList ++ s = g.render.toList ++ t) : f.Alike g ∧ s = t := by
  by_cases hfe : f.pieces = []
  · by_cases hge : g.pieces = []
    · rw [render_of_pieces_eq_nil hfe, render_of_pieces_eq_nil hge] at h
      exact ⟨hf.alike_of_pieces_eq hg (hfe.trans hge.symm), List.append_cancel_left h⟩
    · rw [render_of_pieces_eq_nil hfe] at h
      exact absurd h.symm ((startsIn_of_pieces_ne_nil hge).append_ne (by decide))
  · by_cases hge : g.pieces = []
    · rw [render_of_pieces_eq_nil hge] at h
      exact absurd h ((startsIn_of_pieces_ne_nil hfe).append_ne (by decide))
    · rw [toList_render hfe, toList_render hge, List.append_assoc, List.append_assoc] at h
      obtain ⟨hpieces, hst⟩ :=
        intercalate_append_inj hs ht hfe hge hf.not_mem_pieces hg.not_mem_pieces h
      exact ⟨hf.alike_of_pieces_eq hg hpieces, hst⟩

end Footprint

/-! ## Effects -/

namespace Effect

/-- No variable in any footprint has a comma or a closing bracket in its name. -/
def Legible (e : Effect) : Prop := ∀ f ∈ e.leaves, f.Legible

/-- The same of every effect in a list. -/
def AllLegible (es : List Effect) : Prop := ∀ f ∈ leavesOfAll es, f.Legible

instance (e : Effect) : Decidable e.Legible :=
  inferInstanceAs (Decidable (∀ f ∈ e.leaves, f.Legible))

theorem legible_leaf {f : Footprint} : (leaf f).Legible ↔ f.Legible := by
  unfold Legible
  rw [leaves, List.forall_mem_singleton]

theorem legible_arrow {params : List Effect} {result : Effect} :
    (arrow params result).Legible ↔ AllLegible params ∧ result.Legible := by
  unfold Legible AllLegible
  rw [leaves, List.forall_mem_append]

theorem allLegible_cons {e : Effect} {es : List Effect} :
    AllLegible (e :: es) ↔ e.Legible ∧ AllLegible es := by
  unfold Legible AllLegible
  rw [leavesOfAll, List.forall_mem_append]

theorem toList_render_arrow {params : List Effect} {result : Effect} {s : List Char} :
    (arrow params result).render.toList ++ s =
      '(' :: ((renderParams params).toList ++
        ')' :: (" => ".toList ++ (result.render.toList ++ s))) := by
  simp [render, String.toList_append]

theorem toList_renderParams_cons_cons {e e' : Effect} {es : List Effect} {s : List Char} :
    (renderParams (e :: e' :: es)).toList ++ s =
      e.render.toList ++ ',' :: ' ' :: ((renderParams (e' :: es)).toList ++ s) := by
  simp [renderParams, String.toList_append]

theorem startsIn_render (e : Effect) : StartsIn ['(', 'P', 'R', 'U', 'T'] e.render.toList := by
  cases e with
  | leaf f =>
    rw [render]
    exact Footprint.startsIn_render.mono (List.subset_cons_self _ _)
  | arrow params result =>
    rw [← List.append_nil (arrow params result).render.toList, toList_render_arrow]
    exact ⟨'(', by decide, _, rfl⟩

/-- No parameter is taken for the end of the list of them. -/
theorem renderParams_cons_append_ne {e : Effect} {es : List Effect} {s t : List Char} :
    (renderParams (e :: es)).toList ++ s ≠ ')' :: t := by
  cases es with
  | nil =>
    rw [renderParams]
    exact e.startsIn_render.append_ne (by decide)
  | cons e' es =>
    rw [toList_renderParams_cons_cons]
    exact e.startsIn_render.append_ne (by decide)

mutual

/-- An effect can be told from what follows, unless that goes on like one more component. -/
theorem Legible.render_append_inj : ∀ {d e : Effect} {s t : List Char}, d.Legible → e.Legible →
    ¬ " & ".toList <+: s → ¬ " & ".toList <+: t → d.render.toList ++ s = e.render.toList ++ t →
    d.Alike e ∧ s = t
  | leaf _, leaf _, _, _, hd, he, hs, ht, h => by
    rw [legible_leaf] at hd he
    rw [render, render] at h
    exact hd.render_append_inj he hs ht h
  | arrow _ _, arrow _ _, _, _, hd, he, hs, ht, h => by
    rw [legible_arrow] at hd he
    rw [toList_render_arrow, toList_render_arrow] at h
    obtain ⟨hparams, h⟩ := AllLegible.renderParams_append_inj hd.1 he.1 (List.cons.inj h).2
    obtain ⟨hresult, hst⟩ :=
      Legible.render_append_inj hd.2 he.2 hs ht (List.append_cancel_left h)
    exact ⟨⟨hparams, hresult⟩, hst⟩
  | leaf _, arrow _ _, _, _, _, _, _, _, h => by
    rw [toList_render_arrow, render] at h
    exact absurd h (Footprint.startsIn_render.append_ne (by decide))
  | arrow _ _, leaf _, _, _, _, _, _, _, h => by
    rw [toList_render_arrow, render] at h
    exact absurd h.symm (Footprint.startsIn_render.append_ne (by decide))

/-- A list of parameters can be told from what follows its closing parenthesis. -/
theorem AllLegible.renderParams_append_inj : ∀ {ds es : List Effect} {s t : List Char},
    AllLegible ds → AllLegible es →
    (renderParams ds).toList ++ ')' :: s = (renderParams es).toList ++ ')' :: t →
    AllAlike ds es ∧ s = t
  | [], [], _, _, _, _, h => ⟨trivial, (List.cons.inj h).2⟩
  | [], _ :: _, _, _, _, _, h => absurd h.symm renderParams_cons_append_ne
  | _ :: _, [], _, _, _, _, h => absurd h renderParams_cons_append_ne
  | [_], [_], _, _, hd, he, h => by
    rw [allLegible_cons] at hd he
    rw [renderParams, renderParams] at h
    obtain ⟨hhead, hst⟩ := Legible.render_append_inj hd.1 he.1 (by simp) (by simp) h
    exact ⟨⟨hhead, trivial⟩, (List.cons.inj hst).2⟩
  | [_], _ :: _ :: _, _, _, hd, he, h => by
    rw [allLegible_cons] at hd he
    rw [toList_renderParams_cons_cons, renderParams] at h
    obtain ⟨-, hst⟩ := Legible.render_append_inj hd.1 he.1 (by simp) (by simp) h
    exact absurd (List.cons.inj hst).1 (by decide)
  | _ :: _ :: _, [_], _, _, hd, he, h => by
    rw [allLegible_cons] at hd he
    rw [toList_renderParams_cons_cons, renderParams] at h
    obtain ⟨-, hst⟩ := Legible.render_append_inj hd.1 he.1 (by simp) (by simp) h
    exact absurd (List.cons.inj hst).1 (by decide)
  | _ :: _ :: _, _ :: _ :: _, _, _, hd, he, h => by
    rw [allLegible_cons] at hd he
    rw [toList_renderParams_cons_cons, toList_renderParams_cons_cons] at h
    obtain ⟨hhead, h⟩ := Legible.render_append_inj hd.1 he.1 (by simp) (by simp) h
    obtain ⟨hrest, hst⟩ := AllLegible.renderParams_append_inj hd.2 he.2
      (List.cons.inj (List.cons.inj h).2).2
    exact ⟨⟨hhead, hrest⟩, hst⟩

end

/-- **The text of an effect can be read in one way only.** Two effects whose variables have neither a
comma nor a closing bracket in their names are written as the same text exactly if they have the same
arrows, with as many parameters at each, and the same variables in each component of each footprint.
So the text says which qualifier the effect needs. -/
theorem render_eq_iff (d e : Effect) (hd : d.Legible) (he : e.Legible) :
    (d.render = e.render ↔ d.Alike e) ∧ (d.render = e.render → d.inferMode = e.inferMode) := by
  have halike (h : d.render = e.render) : d.Alike e :=
    (hd.render_append_inj he (by simp) (by simp) (congrArg (·.toList ++ []) h)).1
  exact ⟨⟨halike, Alike.render_eq⟩, fun h => (halike h).inferMode_eq⟩

/-- One text of an effect with a parameter that is an arrow, however its payloads are written. -/
theorem render_eq_iff_nested :
    let nested : Effect :=
      arrow [arrow [leaf .pure, leaf (.reading (.of ["x", "y"]))] (leaf (.timed (.of ["z"])))]
        (leaf (.updating (.union [.of ["y"], .of ["x"]]) (.of ["x"])))
    let flat : Effect :=
      arrow [arrow [leaf .pure, leaf (.reading (.union [.of ["y"], .of ["x", "y"]]))]
          (leaf (.timed (.of ["z"])))]
        (leaf (.updating (.of ["x", "y"]) (.of ["x"])))
    nested.render = "((Pure, Read[x, y]) => Temporal[z]) => Read[x, y] & Update[x]" ∧
      nested.render = flat.render ∧ nested.Alike flat ∧ nested.inferMode = flat.inferMode := by
  intro nested flat
  have htext : nested.render = flat.render := by decide
  obtain ⟨hiff, hmode⟩ := render_eq_iff nested flat (by decide) (by decide)
  exact ⟨by decide, htext, hiff.mp htext, hmode htext⟩

/-- With a comma in its name a variable passes for two, with a bracket for two components. -/
example :
    (leaf (.reading (.of ["x, y"]))).render = (leaf (.reading (.of ["x", "y"]))).render ∧
      (leaf (.reading (.of ["x] & Update[y"]))).render =
        (leaf (.updating (.of ["x"]) (.of ["y"]))).render := by
  decide

end Effect

end OperatorModes

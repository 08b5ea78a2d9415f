import Mathlib.Data.List.Perm.Basic
/-! # Stable sorting

To sort a list by a comparison that finds different elements equal leaves open in which order those
come. A stable sort keeps the order that they had. `StablySorted` says so: the sorted list has the
same elements, is in order, and has for each element the same list of elements tied with it.

  * Nothing is left open: a list is stably sorted in one way only (`StablySorted.unique`). The
    hypothesis there is not that the two lists are equal but that they have the same elements and
    the same ties, so it also says that a permutation that keeps the ties does not count.
  * `List.mergeSort` is such a sort (`stablySorted_mergeSort`), so what the program sorts is known
    without looking at how.
  * A stable sort goes along with a filter (`StablySorted.filter`) and with a function that keeps
    the comparison (`StablySorted.map`).

The comparison is any transitive and oriented one. Uniqueness goes by induction over the sorted
lists: the first elements of both compare equal, and tied elements stand in the same order.
-/
namespace DepsManifest

variable {α : Type} {cmp : α → α → Ordering}

/-- The elements of a list that compare equal to one of them, in their order. -/
def tied (cmp : α → α → Ordering) (a : α) (l : List α) : List α := l.filter fun b => cmp a b == .eq

/-- A list is another one in the order of a comparison, with elements that compare equal in the
order in which they stood. -/
structure StablySorted (cmp : α → α → Ordering) (l sorted : List α) : Prop where
  perm : sorted.Perm l
  ordered : sorted.Pairwise fun a b => (cmp a b).isLE = true
  stable : ∀ a, tied cmp a sorted = tied cmp a l

theorem tied_cons_of_eq {a b : α} (h : cmp a b = .eq) (l : List α) :
    tied cmp a (b :: l) = b :: tied cmp a l :=
  List.filter_cons_of_pos (by rw [h]; rfl)

/-- What is left of a stable sort is the stable sort of what is left. -/
theorem StablySorted.filter {l s : List α} (h : StablySorted cmp l s) (keep : α → Bool) :
    StablySorted cmp (l.filter keep) (s.filter keep) := by
  have hcomm : ∀ a l, tied cmp a (l.filter keep) = (tied cmp a l).filter keep :=
    fun _ l => List.filter_comm _ _ l
  refine ⟨h.perm.filter keep, h.ordered.sublist List.filter_sublist, fun a => ?_⟩
  rw [hcomm, hcomm, h.stable]

section

variable [Std.TransCmp cmp]

theorem pairwise_tied (a : α) (l : List α) :
    (tied cmp a l).Pairwise fun b c => (cmp b c).isLE = true := by
  refine List.pairwise_of_forall_mem_list fun b hb c hc => ?_
  have hab : cmp a b = .eq := eq_of_beq (List.mem_filter.mp hb).2
  have hac : cmp a c = .eq := eq_of_beq (List.mem_filter.mp hc).2
  rw [← Std.TransCmp.congr_left hab, hac]
  rfl

theorem stablySorted_mergeSort (l : List α) :
    StablySorted cmp l (l.mergeSort fun a b => (cmp a b).isLE) := by
  have htrans : ∀ a b c : α, (cmp a b).isLE = true → (cmp b c).isLE = true →
      (cmp a c).isLE = true := fun a b c => Std.TransCmp.isLE_trans
  have htotal : ∀ a b : α, ((cmp a b).isLE || (cmp b a).isLE) = true := by
    intro a b
    have hswap : cmp b a = (cmp a b).swap := Std.OrientedCmp.eq_swap
    rw [hswap]
    cases cmp a b <;> rfl
  have hperm := List.mergeSort_perm l fun a b => (cmp a b).isLE
  refine ⟨hperm, List.pairwise_mergeSort htrans htotal l, fun a => ?_⟩
  -- The tied elements stand in order already, so that they are a sublist of the sorted list.
  have hsublist : (tied cmp a l).Sublist (l.mergeSort fun a b => (cmp a b).isLE) :=
    List.sublist_mergeSort htrans htotal (pairwise_tied a l) List.filter_sublist
  have htied : (tied cmp a l).Sublist (tied cmp a (l.mergeSort fun a b => (cmp a b).isLE)) := by
    have hfiltered := hsublist.filter fun b => cmp a b == .eq
    simpa only [tied, List.filter_filter, Bool.and_self] using hfiltered
  exact (htied.eq_of_length (hperm.filter _).length_eq.symm).symm

theorem isLE_head {a b : α} {l : List α} (h : (a :: l).Pairwise fun a b => (cmp a b).isLE = true)
    (hb : b ∈ a :: l) : (cmp a b).isLE = true := by
  rcases List.mem_cons.mp hb with rfl | hb
  · have hself : cmp b b = .eq := Std.ReflCmp.compare_self
    rw [hself]
    rfl
  · exact (List.pairwise_cons.mp h).1 b hb

/-- Two sorted lists of the same elements are equal if they have tied elements in the same order. -/
theorem eq_of_ordered_of_tied {l l' : List α} (hperm : l.Perm l')
    (hl : l.Pairwise fun a b => (cmp a b).isLE = true)
    (hl' : l'.Pairwise fun a b => (cmp a b).isLE = true)
    (htied : ∀ a, tied cmp a l = tied cmp a l') : l = l' := by
  induction l generalizing l' with
  | nil => exact hperm.nil_eq
  | cons a l ih =>
      cases l' with
      | nil => exact absurd hperm.length_eq (Nat.succ_ne_zero _)
      | cons b l' =>
          have hab : (cmp a b).isLE = true := isLE_head hl (hperm.mem_iff.mpr List.mem_cons_self)
          have hba : (cmp b a).isLE = true := isLE_head hl' (hperm.mem_iff.mp List.mem_cons_self)
          have heq : cmp a b = .eq := Std.OrientedCmp.isLE_antisymm hab hba
          have hheads := htied a
          rw [tied_cons_of_eq Std.ReflCmp.compare_self, tied_cons_of_eq heq] at hheads
          obtain rfl : a = b := (List.cons.inj hheads).1
          refine congrArg (a :: ·) (ih (List.perm_cons a |>.mp hperm) (List.pairwise_cons.mp hl).2
            (List.pairwise_cons.mp hl').2 fun c => ?_)
          have hboth := htied c
          unfold tied at hboth ⊢
          rw [List.filter_cons, List.filter_cons] at hboth
          split at hboth
          · exact (List.cons.inj hboth).2
          · exact hboth

theorem tied_map {f : α → α} {a b : α} {l : List α} (hab : cmp a (f b) = .eq)
    (hf : ∀ c ∈ l, cmp (f b) (f c) = cmp b c) : tied cmp a (l.map f) = (tied cmp b l).map f := by
  unfold tied
  rw [List.filter_map]
  refine congrArg (List.map f) (List.filter_congr fun c hc => ?_)
  rw [Function.comp_apply, Std.TransCmp.congr_left hab, hf c hc]

theorem StablySorted.map {f : α → α} {l s : List α} (h : StablySorted cmp l s)
    (hf : ∀ a ∈ l, ∀ b ∈ l, cmp (f a) (f b) = cmp a b) : StablySorted cmp (l.map f) (s.map f) := by
  have hmem : ∀ c ∈ s, c ∈ l := fun c hc => h.perm.mem_iff.mp hc
  refine ⟨h.perm.map f, List.pairwise_map.mpr (h.ordered.imp_of_mem fun ha hb hab => ?_),
    fun a => ?_⟩
  · rwa [hf _ (hmem _ ha) _ (hmem _ hb)]
  · by_cases hsome : ∃ b ∈ l, cmp a (f b) = .eq
    · obtain ⟨b, hb, hab⟩ := hsome
      rw [tied_map hab fun c hc => hf b hb c (hmem c hc), tied_map hab fun c hc => hf b hb c hc,
        h.stable]
    · have hnone : tied cmp a (l.map f) = [] := by
        refine List.filter_eq_nil_iff.mpr fun c hc htied => hsome ?_
        obtain ⟨b, hb, rfl⟩ := List.mem_map.mp hc
        exact ⟨b, hb, eq_of_beq htied⟩
      have htied : (tied cmp a (s.map f)).Perm (tied cmp a (l.map f)) := (h.perm.map f).filter _
      rw [hnone] at htied ⊢
      exact htied.eq_nil

/-- Lists of the same elements, with tied elements in the same order, have one stable sort. -/
theorem StablySorted.unique {l l' s s' : List α} (h : StablySorted cmp l s)
    (h' : StablySorted cmp l' s') (hperm : l.Perm l') (htied : ∀ a, tied cmp a l = tied cmp a l') :
    s = s' := by
  refine eq_of_ordered_of_tied ((h.perm.trans hperm).trans h'.perm.symm) h.ordered h'.ordered
    fun a => ?_
  rw [h.stable, htied, h'.stable]

end

end DepsManifest

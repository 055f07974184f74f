import Mathlib.Data.Finset.Card
import Mathlib.Data.Set.NAry

/-! Families of finite sets described by their minimal members, their common part and their union. -/
namespace CapabilityCompiler.Foundation.Alternatives

variable {α : Type*}

/-! Absorption. -/

section Absorption
variable [DecidableEq α]

/-- Keep the candidates that contain no set kept before them. -/
def absorb (kept : List (Finset α)) : List (Finset α) → List (Finset α)
  | [] => kept
  | candidate :: rest =>
    if kept.any (· ⊆ candidate) then absorb kept rest else absorb (kept ++ [candidate]) rest

theorem mem_absorb {kept candidates : List (Finset α)} {s : Finset α}
    (h : s ∈ absorb kept candidates) : s ∈ kept ∨ s ∈ candidates := by
  induction candidates generalizing kept with
  | nil => exact .inl h
  | cons candidate rest ih =>
    rw [absorb] at h
    split at h
    · exact (ih h).imp_right (List.mem_cons_of_mem _)
    · rcases ih h with hkept | hrest
      · rcases List.mem_append.mp hkept with hold | hnew
        · exact .inl hold
        · exact .inr (List.mem_singleton.mp hnew ▸ List.mem_cons_self)
      · exact .inr (List.mem_cons_of_mem _ hrest)

theorem subset_absorb {kept candidates : List (Finset α)} : kept ⊆ absorb kept candidates := by
  induction candidates generalizing kept with
  | nil => exact List.Subset.refl _
  | cons candidate rest ih =>
    rw [absorb]
    split
    · exact ih
    · exact List.Subset.trans (List.subset_append_left _ _) ih

/-- Whatever is dropped contains something that is kept. -/
theorem exists_absorb_subset {kept candidates : List (Finset α)} {s : Finset α}
    (h : s ∈ candidates) : ∃ t ∈ absorb kept candidates, t ⊆ s := by
  induction candidates generalizing kept with
  | nil => exact absurd h List.not_mem_nil
  | cons candidate rest ih =>
    rw [absorb]
    rcases List.mem_cons.mp h with rfl | h
    · split
      · rename_i hany
        obtain ⟨t, ht, hts⟩ := List.any_eq_true.mp hany
        exact ⟨t, subset_absorb ht, of_decide_eq_true hts⟩
      · exact ⟨s, subset_absorb (List.mem_append_right _ (List.mem_singleton.mpr rfl)),
          Finset.Subset.refl s⟩
    · split
      · exact ih h
      · exact ih h

/-- Candidates without repetition and in the order of their size leave an antichain. -/
theorem pairwise_absorb {kept candidates : List (Finset α)}
    (hkept : kept.Pairwise fun s t => ¬ s ⊆ t ∧ ¬ t ⊆ s)
    (hcard : ∀ s ∈ kept, ∀ t ∈ candidates, s.card ≤ t.card) (hfresh : ∀ s ∈ candidates, s ∉ kept)
    (hsorted : candidates.Pairwise fun s t => s.card ≤ t.card) (hnodup : candidates.Nodup) :
    (absorb kept candidates).Pairwise fun s t => ¬ s ⊆ t ∧ ¬ t ⊆ s := by
  induction candidates generalizing kept with
  | nil => exact hkept
  | cons candidate rest ih =>
    have hrest : ∀ t ∈ rest, candidate.card ≤ t.card := (List.pairwise_cons.mp hsorted).1
    have hnotin : candidate ∉ rest := (List.nodup_cons.mp hnodup).1
    rw [absorb]
    split
    · exact ih hkept (fun s hs t ht => hcard s hs t (List.mem_cons_of_mem _ ht))
        (fun s hs => hfresh s (List.mem_cons_of_mem _ hs)) (List.pairwise_cons.mp hsorted).2
        (List.nodup_cons.mp hnodup).2
    · rename_i hany
      have hnot : ∀ s ∈ kept, ¬ s ⊆ candidate := fun s hs hsub =>
        hany (List.any_eq_true.mpr ⟨s, hs, decide_eq_true hsub⟩)
      refine ih ?_ ?_ ?_ (List.pairwise_cons.mp hsorted).2 (List.nodup_cons.mp hnodup).2
      · refine List.pairwise_append.mpr ⟨hkept, List.pairwise_singleton _ _, ?_⟩
        intro s hs t ht
        obtain rfl := List.mem_singleton.mp ht
        refine ⟨hnot s hs, fun hsub => hnot s hs ?_⟩
        -- A smaller set that contains the other one is the other one.
        have heq : t = s :=
          Finset.eq_of_subset_of_card_le hsub (hcard s hs t List.mem_cons_self)
        exact heq ▸ Finset.Subset.refl _
      · intro s hs t ht
        rcases List.mem_append.mp hs with hs | hs
        · exact hcard s hs t (List.mem_cons_of_mem _ ht)
        · exact List.mem_singleton.mp hs ▸ hrest t ht
      · intro s hs hmem
        rcases List.mem_append.mp hmem with hmem | hmem
        · exact hfresh s (List.mem_cons_of_mem _ hs) hmem
        · exact hnotin (List.mem_singleton.mp hmem ▸ hs)

end Absorption

/-! Families. -/

section Families
variable [DecidableEq α]

/-- One member of each family, together. -/
def joined (F G : Set (Finset α)) : Set (Finset α) := Set.image2 (· ∪ ·) F G

/-- A member for each of several rounds, together. -/
def repeated (F : Set (Finset α)) : ℕ → Set (Finset α)
  | 0 => {∅}
  | n + 1 => joined F (repeated F n)

theorem joined_empty (F : Set (Finset α)) : joined F {∅} = F := by
  rw [joined, Set.image2_singleton_right]
  simp

theorem empty_joined (F : Set (Finset α)) : joined {∅} F = F := by
  rw [joined, Set.image2_singleton_left]
  simp

theorem joined_assoc (F G H : Set (Finset α)) : joined (joined F G) H = joined F (joined G H) :=
  Set.image2_assoc fun _ _ _ => Finset.union_assoc _ _ _

/-- One round's choice may be made again in every round. -/
theorem subset_repeated {F : Set (Finset α)} {n : ℕ} : F ⊆ repeated F (n + 1) := by
  intro s hs
  induction n with
  | zero => exact ⟨s, hs, ∅, rfl, Finset.union_empty s⟩
  | succ n ih => exact ⟨s, hs, s, ih, Finset.union_self s⟩

/-- Every round of at least one contains a choice of a single round. -/
theorem exists_subset_of_mem_repeated {F : Set (Finset α)} {n : ℕ} {s : Finset α}
    (h : s ∈ repeated F (n + 1)) : ∃ t ∈ F, t ⊆ s := by
  obtain ⟨t, ht, u, -, rfl⟩ := h
  exact ⟨t, ht, Finset.subset_union_left⟩

theorem exists_mem_of_mem_repeated {F : Set (Finset α)} {n : ℕ} {s : Finset α} {x : α}
    (h : s ∈ repeated F n) (hx : x ∈ s) : ∃ t ∈ F, x ∈ t := by
  induction n generalizing s with
  | zero =>
    obtain rfl := Set.mem_singleton_iff.mp h
    exact absurd hx (Finset.notMem_empty x)
  | succ n ih =>
    obtain ⟨t, ht, u, hu, rfl⟩ := h
    rcases Finset.mem_union.mp hx with hx | hx
    · exact ⟨t, ht, hx⟩
    · exact ih hu hx

end Families

/-! Summaries of families. -/

/-- The alternatives are members below every member, and the two sets are the common part and the
union of the members. -/
structure Describes (alternatives : List (Finset α)) (always union : Finset α)
    (F : Set (Finset α)) : Prop where
  nonempty : F.Nonempty
  attained : ∀ s ∈ alternatives, s ∈ F
  covered : ∀ s ∈ F, ∃ t ∈ alternatives, t ⊆ s
  always : ∀ x, x ∈ always ↔ ∀ s ∈ F, x ∈ s
  union : ∀ x, x ∈ union ↔ ∃ s ∈ F, x ∈ s

section Describes
variable {as bs : List (Finset α)} {a b u v : Finset α} {F G : Set (Finset α)}

theorem Describes.single (s : Finset α) : Describes [s] s s {s} where
  nonempty := Set.singleton_nonempty s
  attained t ht := List.mem_singleton.mp ht
  covered t ht := ⟨s, List.mem_singleton.mpr rfl, (Set.mem_singleton_iff.mp ht) ▸ Finset.Subset.refl _⟩
  always x := by simp
  union x := by simp

/-- The alternatives may be replaced by others that cover the same members. -/
theorem Describes.reduce (h : Describes as a u F) (hmem : ∀ s ∈ bs, s ∈ as)
    (hcovered : ∀ s ∈ as, ∃ t ∈ bs, t ⊆ s) : Describes bs a u F where
  nonempty := h.nonempty
  attained s hs := h.attained s (hmem s hs)
  covered s hs := by
    obtain ⟨t, ht, hts⟩ := h.covered s hs
    obtain ⟨r, hr, hrt⟩ := hcovered t ht
    exact ⟨r, hr, Finset.Subset.trans hrt hts⟩
  always := h.always
  union := h.union

/-- The common part is the one of the alternatives. -/
theorem Describes.mem_always_iff (h : Describes as a u F) (x : α) :
    x ∈ a ↔ ∀ s ∈ as, x ∈ s := by
  rw [h.always]
  constructor
  · exact fun hx s hs => hx s (h.attained s hs)
  · intro hx s hs
    obtain ⟨t, ht, hts⟩ := h.covered s hs
    exact hts (hx t ht)

theorem Describes.union_subset_iff (h : Describes as a u F) (S : Finset α) :
    u ⊆ S ↔ ∀ s ∈ F, s ⊆ S := by
  constructor
  · exact fun hu s hs x hx => hu ((h.union x).mpr ⟨s, hs, hx⟩)
  · intro hF x hx
    obtain ⟨s, hs, hx⟩ := (h.union x).mp hx
    exact hF s hs hx

theorem Describes.exists_subset_iff (h : Describes as a u F) (S : Finset α) :
    (∃ s ∈ as, s ⊆ S) ↔ ∃ s ∈ F, s ⊆ S := by
  constructor
  · rintro ⟨s, hs, hsub⟩
    exact ⟨s, h.attained s hs, hsub⟩
  · rintro ⟨s, hs, hsub⟩
    obtain ⟨t, ht, hts⟩ := h.covered s hs
    exact ⟨t, ht, Finset.Subset.trans hts hsub⟩

theorem Describes.alternatives_ne_nil (h : Describes as a u F) : as ≠ [] := by
  obtain ⟨s, hs⟩ := h.nonempty
  obtain ⟨t, ht, -⟩ := h.covered s hs
  exact List.ne_nil_of_mem ht

theorem Describes.always_subset_union (h : Describes as a u F) : a ⊆ u := by
  obtain ⟨s, hs⟩ := h.nonempty
  exact fun x hx => (h.union x).mpr ⟨s, hs, (h.always x).mp hx s hs⟩

variable [DecidableEq α]

theorem Describes.join (hF : Describes as a u F) (hG : Describes bs b v G) :
    Describes (as.flatMap fun s => bs.map (s ∪ ·)) (a ∪ b) (u ∪ v) (joined F G) where
  nonempty := hF.nonempty.image2 hG.nonempty
  attained s hs := by
    obtain ⟨p, hp, hs⟩ := List.mem_flatMap.mp hs
    obtain ⟨q, hq, rfl⟩ := List.mem_map.mp hs
    exact ⟨p, hF.attained p hp, q, hG.attained q hq, rfl⟩
  covered s hs := by
    obtain ⟨p, hp, q, hq, rfl⟩ := hs
    obtain ⟨p', hp', hpp⟩ := hF.covered p hp
    obtain ⟨q', hq', hqq⟩ := hG.covered q hq
    exact ⟨p' ∪ q', List.mem_flatMap.mpr ⟨p', hp', List.mem_map.mpr ⟨q', hq', rfl⟩⟩,
      Finset.union_subset_union hpp hqq⟩
  always x := by
    rw [Finset.mem_union, hF.always, hG.always]
    constructor
    · rintro hx s ⟨p, hp, q, hq, rfl⟩
      exact Finset.mem_union.mpr (hx.imp (fun h => h p hp) fun h => h q hq)
    · intro hx
      -- A member of one family without `x` forces `x` into every member of the other.
      by_cases hall : ∀ s ∈ F, x ∈ s
      · exact .inl hall
      · obtain ⟨p, hp⟩ := not_forall.mp hall
        obtain ⟨hp, hxp⟩ := Classical.not_imp.mp hp
        refine .inr fun q hq => ?_
        exact (Finset.mem_union.mp (hx _ ⟨p, hp, q, hq, rfl⟩)).resolve_left hxp
  union x := by
    rw [Finset.mem_union, hF.union, hG.union]
    constructor
    · rintro (⟨p, hp, hx⟩ | ⟨q, hq, hx⟩)
      · obtain ⟨q, hq⟩ := hG.nonempty
        exact ⟨_, ⟨p, hp, q, hq, rfl⟩, Finset.mem_union_left _ hx⟩
      · obtain ⟨p, hp⟩ := hF.nonempty
        exact ⟨_, ⟨p, hp, q, hq, rfl⟩, Finset.mem_union_right _ hx⟩
    · rintro ⟨s, ⟨p, hp, q, hq, rfl⟩, hx⟩
      exact (Finset.mem_union.mp hx).imp (fun h => ⟨p, hp, h⟩) fun h => ⟨q, hq, h⟩

theorem Describes.choice (hF : Describes as a u F) (hG : Describes bs b v G) :
    Describes (as ++ bs) (a ∩ b) (u ∪ v) (F ∪ G) where
  nonempty := hF.nonempty.mono Set.subset_union_left
  attained s hs := (List.mem_append.mp hs).imp (hF.attained s) (hG.attained s)
  covered s hs := by
    rcases hs with hs | hs
    · obtain ⟨t, ht, hts⟩ := hF.covered s hs
      exact ⟨t, List.mem_append_left _ ht, hts⟩
    · obtain ⟨t, ht, hts⟩ := hG.covered s hs
      exact ⟨t, List.mem_append_right _ ht, hts⟩
  always x := by
    rw [Finset.mem_inter, hF.always, hG.always]
    constructor
    · rintro ⟨hF, hG⟩ s (hs | hs)
      · exact hF s hs
      · exact hG s hs
    · exact fun h => ⟨fun s hs => h s (.inl hs), fun s hs => h s (.inr hs)⟩
  union x := by
    rw [Finset.mem_union, hF.union, hG.union]
    constructor
    · rintro (⟨s, hs, hx⟩ | ⟨s, hs, hx⟩)
      · exact ⟨s, .inl hs, hx⟩
      · exact ⟨s, .inr hs, hx⟩
    · rintro ⟨s, hs | hs, hx⟩
      · exact .inl ⟨s, hs, hx⟩
      · exact .inr ⟨s, hs, hx⟩

/-- At least one round needs what one round needs. -/
theorem Describes.repeat (h : Describes as a u F) (n : ℕ) :
    Describes as a u (repeated F (n + 1)) where
  nonempty := h.nonempty.mono subset_repeated
  attained s hs := subset_repeated (h.attained s hs)
  covered s hs := by
    obtain ⟨t, ht, hts⟩ := exists_subset_of_mem_repeated hs
    obtain ⟨r, hr, hrt⟩ := h.covered t ht
    exact ⟨r, hr, Finset.Subset.trans hrt hts⟩
  always x := by
    rw [h.always]
    constructor
    · intro hx s hs
      obtain ⟨t, ht, hts⟩ := exists_subset_of_mem_repeated hs
      exact hts (hx t ht)
    · exact fun hx s hs => hx s (subset_repeated hs)
  union x := by
    rw [h.union]
    constructor
    · rintro ⟨s, hs, hx⟩
      exact ⟨s, subset_repeated hs, hx⟩
    · rintro ⟨s, hs, hx⟩
      exact exists_mem_of_mem_repeated hs hx

/-- Any number of rounds up to a positive bound, none included. -/
theorem Describes.optional (h : Describes as a u F) {bound : ℕ} (hbound : 1 ≤ bound) :
    Describes (∅ :: as) ∅ u {s | ∃ n ≤ bound, s ∈ repeated F n} where
  nonempty := ⟨∅, 0, Nat.zero_le _, rfl⟩
  attained s hs := by
    rcases List.mem_cons.mp hs with rfl | hs
    · exact ⟨0, Nat.zero_le _, rfl⟩
    · exact ⟨1, hbound, subset_repeated (h.attained s hs)⟩
  covered s _ := ⟨∅, List.mem_cons_self, Finset.empty_subset s⟩
  always x := by
    constructor
    · intro hx
      exact absurd hx (Finset.notMem_empty x)
    · exact fun hx => hx ∅ ⟨0, Nat.zero_le _, rfl⟩
  union x := by
    rw [h.union]
    constructor
    · rintro ⟨s, hs, hx⟩
      exact ⟨s, ⟨1, hbound, subset_repeated hs⟩, hx⟩
    · rintro ⟨s, ⟨n, -, hs⟩, hx⟩
      exact exists_mem_of_mem_repeated hs hx

end Describes
end CapabilityCompiler.Foundation.Alternatives

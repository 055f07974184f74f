import Mathlib.Data.List.Basic
import Mathlib.Data.List.Induction
import Mathlib.Data.List.Count
import Mathlib.Data.List.Nodup
import Mathlib.Data.List.Perm.Subperm
import Mathlib.Order.Basic
import Mathlib.Tactic.Common

/-! Keys with dependencies: a depth-first visit that fails on cycles, and the runs that execute every
key after its dependencies. -/
namespace CapabilityCompiler.Foundation.Precedence

variable {κ : Type} (deps : κ → List κ)

section Visit
variable [DecidableEq κ]

/-- Visit keys in turn; the keys visited before are passed on. -/
def visitAll (visit : List κ → κ → Option (List κ)) : List κ → List κ → Option (List κ)
  | visited, [] => some visited
  | visited, key :: rest => (visit visited key).bind fun visited => visitAll visit visited rest

/-- The visited keys, the latest first, after a key whose dependencies are visited before it; `none`
if a key is met that is still being visited. -/
def visit : ℕ → List κ → List κ → κ → Option (List κ)
  | 0, _, _, _ => none
  | fuel + 1, visiting, visited, key =>
    if key ∈ visiting then none
    else if key ∈ visited then some visited
    else (visitAll (visit fuel (key :: visiting)) visited (deps key)).map (key :: ·)

/-- Visit all keys of a graph. -/
def visitKeys (keys : List κ) : Option (List κ) :=
  visitAll (visit deps (keys.length + 1) []) [] keys

end Visit

/-- Every key comes after its dependencies, the latest key first. -/
def Ordered : List κ → Prop
  | [] => True
  | key :: rest => key ∉ rest ∧ (∀ dep ∈ deps key, dep ∈ rest) ∧ Ordered rest

/-- Some keys may be executed again after their first time. -/
inductive Run (keys : List κ) (mayRepeat : κ → Prop) : List κ → Prop
  | nil : Run keys mayRepeat []
  | first {run : List κ} {key : κ} (h : Run keys mayRepeat run) (hmem : key ∈ keys)
      (hnew : key ∉ run) (hdeps : ∀ dep ∈ deps key, dep ∈ run) :
      Run keys mayRepeat (run ++ [key])
  | again {run : List κ} {key : κ} (h : Run keys mayRepeat run) (hmem : key ∈ run)
      (hrepeat : mayRepeat key) : Run keys mayRepeat (run ++ [key])

variable {deps}

/-! Runs. -/

section Runs
variable {keys : List κ} {mayRepeat : κ → Prop}

theorem Run.subset {run : List κ} (h : Run deps keys mayRepeat run) : run ⊆ keys := by
  induction h with
  | nil => exact List.nil_subset _
  | first h hmem hnew hdeps ih =>
    exact List.append_subset.mpr ⟨ih, List.cons_subset.mpr ⟨hmem, List.nil_subset _⟩⟩
  | again h hmem hrepeat ih =>
    exact List.append_subset.mpr ⟨ih, List.cons_subset.mpr ⟨ih hmem, List.nil_subset _⟩⟩

/-- The dependencies of what was executed were executed. -/
theorem Run.deps_of_mem {run : List κ} (h : Run deps keys mayRepeat run) :
    ∀ key ∈ run, ∀ dep ∈ deps key, dep ∈ run := by
  induction h with
  | nil => exact fun key hmem => absurd hmem List.not_mem_nil
  | first h hmem hnew hdeps ih =>
    intro key hkey dep hdep
    rcases List.mem_append.mp hkey with hold | hlast
    · exact List.mem_append_left _ (ih key hold dep hdep)
    · rw [List.mem_singleton.mp hlast] at hdep
      exact List.mem_append_left _ (hdeps dep hdep)
  | again h hmem hrepeat ih =>
    intro key hkey dep hdep
    rcases List.mem_append.mp hkey with hold | hlast
    · exact List.mem_append_left _ (ih key hold dep hdep)
    · rw [List.mem_singleton.mp hlast] at hdep
      exact List.mem_append_left _ (ih _ hmem dep hdep)

/-- What comes before a part of a run is a run. -/
theorem Run.of_append {before after : List κ} (h : Run deps keys mayRepeat (before ++ after)) :
    Run deps keys mayRepeat before := by
  induction after using List.reverseRecOn with
  | nil => rwa [List.append_nil] at h
  | append_singleton after key ih =>
    rw [← List.append_assoc] at h
    generalize hrun : before ++ after ++ [key] = run at h
    cases h with
    | nil => exact absurd hrun (by simp)
    | first h hmem hnew hdeps =>
      obtain ⟨rfl, -⟩ := List.append_inj' hrun rfl
      exact ih h
    | again h hmem hrepeat =>
      obtain ⟨rfl, -⟩ := List.append_inj' hrun rfl
      exact ih h

/-- Every execution of a key comes after its dependencies. -/
theorem Run.deps_before {before after : List κ} {key : κ}
    (h : Run deps keys mayRepeat (before ++ key :: after)) : ∀ dep ∈ deps key, dep ∈ before := by
  have hlast : Run deps keys mayRepeat (before ++ [key]) := by
    refine Run.of_append (show Run deps keys mayRepeat (before ++ [key] ++ after) from ?_)
    rwa [List.append_assoc, List.singleton_append]
  generalize hrun : before ++ [key] = run at hlast
  cases hlast with
  | nil => exact absurd hrun (by simp)
  | first h hmem hnew hdeps =>
    obtain ⟨rfl, hkey⟩ := List.append_inj' hrun rfl
    obtain rfl := List.singleton_inj.mp hkey
    exact hdeps
  | again h hmem hrepeat =>
    obtain ⟨rfl, hkey⟩ := List.append_inj' hrun rfl
    obtain rfl := List.singleton_inj.mp hkey
    exact h.deps_of_mem _ hmem

/-- A key that may not be repeated is executed once at most. -/
theorem Run.count_le_one [DecidableEq κ] {run : List κ} (h : Run deps keys mayRepeat run) {key : κ}
    (hkey : ¬ mayRepeat key) : run.count key ≤ 1 := by
  induction h with
  | nil => simp
  | @first run other h hmem hnew hdeps ih =>
    rw [List.count_append]
    by_cases heq : other = key
    · subst heq
      simp [List.count_eq_zero_of_not_mem hnew]
    · rw [List.count_singleton, if_neg (by simpa using heq)]
      exact ih
  | @again run other h hmem hrepeat ih =>
    have hne : other ≠ key := by
      rintro rfl
      exact hkey hrepeat
    rw [List.count_append, List.count_singleton, if_neg (by simpa using hne)]
    exact ih

/-- An order of keys is executed as it stands. -/
theorem Ordered.run {order : List κ} (h : Ordered deps order) (hkeys : order ⊆ keys) :
    Run deps keys mayRepeat order.reverse := by
  induction order with
  | nil => exact .nil
  | cons key rest ih =>
    obtain ⟨hnew, hdeps, hrest⟩ := h
    obtain ⟨hmem, hkeys⟩ := List.cons_subset.mp hkeys
    rw [List.reverse_cons]
    exact .first (ih hrest hkeys) hmem (fun h => hnew (List.mem_reverse.mp h))
      fun dep hdep => List.mem_reverse.mpr (hdeps dep hdep)

end Runs

/-! Visits. -/

/-- What a visit adds to the visited keys. -/
structure Grows (deps : κ → List κ) (P : κ → Prop) (visiting visited result : List κ) : Prop where
  ordered : Ordered deps result
  subset : visited ⊆ result
  new : ∀ key ∈ result, key ∈ visited ∨ key ∉ visiting ∧ P key

theorem visitAll_grows {P : κ → Prop} {visiting : List κ}
    {visit : List κ → κ → Option (List κ)}
    (hvisit : ∀ visited key result, P key → Ordered deps visited →
      visit visited key = some result → Grows deps P visiting visited result ∧ key ∈ result)
    {rest visited result : List κ} (hrest : ∀ key ∈ rest, P key) (hordered : Ordered deps visited)
    (h : visitAll visit visited rest = some result) :
    Grows deps P visiting visited result ∧ rest ⊆ result := by
  induction rest generalizing visited with
  | nil =>
    obtain rfl := Option.some.inj h
    exact ⟨⟨hordered, List.Subset.refl _, fun key hkey => Or.inl hkey⟩, List.nil_subset _⟩
  | cons key rest ih =>
    obtain ⟨middle, hmiddle, h⟩ := Option.bind_eq_some_iff.mp h
    obtain ⟨hfirst, hkey⟩ := hvisit visited key middle (hrest key List.mem_cons_self) hordered hmiddle
    obtain ⟨hlast, hsubset⟩ := ih (fun k hk => hrest k (List.mem_cons_of_mem _ hk)) hfirst.ordered h
    refine ⟨⟨hlast.ordered, List.Subset.trans hfirst.subset hlast.subset, fun k hk => ?_⟩,
      List.cons_subset.mpr ⟨hlast.subset hkey, hsubset⟩⟩
    rcases hlast.new k hk with hmem | hnew
    · exact hfirst.new k hmem
    · exact Or.inr hnew

theorem visitAll_isSome {visit : List κ → κ → Option (List κ)} {rest : List κ}
    (hvisit : ∀ visited, ∀ key ∈ rest, (visit visited key).isSome = true) (visited : List κ) :
    (visitAll visit visited rest).isSome = true := by
  induction rest generalizing visited with
  | nil => rfl
  | cons key rest ih =>
    obtain ⟨middle, hmiddle⟩ := Option.isSome_iff_exists.mp (hvisit visited key List.mem_cons_self)
    rw [visitAll, hmiddle, Option.bind_some]
    exact ih (fun visited k hk => hvisit visited k (List.mem_cons_of_mem _ hk)) middle

theorem length_lt_of_new {keys visiting : List κ} {key : κ} (hkey : key ∈ keys)
    (hsubset : visiting ⊆ keys) (hnodup : visiting.Nodup) (hnew : key ∉ visiting) :
    visiting.length < keys.length := by
  have hcons : (key :: visiting).Nodup := List.nodup_cons.mpr ⟨hnew, hnodup⟩
  exact (List.subperm_of_subset hcons (List.cons_subset.mpr ⟨hkey, hsubset⟩)).length_le

section Visits
variable [DecidableEq κ]

theorem visit_grows {P : κ → Prop} (hclosed : ∀ key, P key → ∀ dep ∈ deps key, P dep) {fuel : ℕ}
    {visiting visited result : List κ} {key : κ} (hkey : P key) (hordered : Ordered deps visited)
    (h : visit deps fuel visiting visited key = some result) :
    Grows deps P visiting visited result ∧ key ∈ result := by
  induction fuel generalizing visiting visited result key with
  | zero => exact absurd h (by simp [visit])
  | succ fuel ih =>
    rw [visit] at h
    split at h
    · exact absurd h (by simp)
    · rename_i hvisiting
      split at h
      · rename_i hvisited
        obtain rfl := Option.some.inj h
        exact ⟨⟨hordered, List.Subset.refl _, fun k hk => Or.inl hk⟩, hvisited⟩
      · rename_i hvisited
        obtain ⟨inner, hinner, rfl⟩ := Option.map_eq_some_iff.mp h
        obtain ⟨hgrows, hdeps⟩ := visitAll_grows
          (fun visited dep result hdep hordered hdone => ih hdep hordered hdone)
          (hclosed key hkey) hordered hinner
        have hnew : key ∉ inner := by
          intro hmem
          rcases hgrows.new key hmem with hold | hnew
          · exact hvisited hold
          · exact hnew.1 List.mem_cons_self
        refine ⟨⟨⟨hnew, fun dep hdep => hdeps hdep, hgrows.ordered⟩,
          List.Subset.trans hgrows.subset (List.subset_cons_self _ _), fun k hk => ?_⟩, List.mem_cons_self⟩
        rcases List.mem_cons.mp hk with rfl | hk
        · exact Or.inr ⟨hvisiting, hkey⟩
        · rcases hgrows.new k hk with hold | hnew
          · exact Or.inl hold
          · exact Or.inr ⟨fun hmem => hnew.1 (List.mem_cons_of_mem _ hmem), hnew.2⟩

/-- A visit that meets no cycle puts exactly the keys of the graph in order. -/
theorem ordered_of_visitKeys {keys order : List κ}
    (hclosed : ∀ key ∈ keys, ∀ dep ∈ deps key, dep ∈ keys)
    (h : visitKeys deps keys = some order) :
    Ordered deps order ∧ ∀ key, key ∈ order ↔ key ∈ keys := by
  have hstart : Ordered deps [] := trivial
  have hvisit : ∀ visited key result, key ∈ keys → Ordered deps visited →
      visit deps (keys.length + 1) [] visited key = some result →
      Grows deps (· ∈ keys) [] visited result ∧ key ∈ result :=
    fun visited key result hkey hordered hdone => visit_grows hclosed hkey hordered hdone
  obtain ⟨hgrows, hsubset⟩ := visitAll_grows hvisit (fun key hkey => hkey) hstart h
  refine ⟨hgrows.ordered, fun key => ⟨fun hkey => ?_, fun hkey => hsubset hkey⟩⟩
  rcases hgrows.new key hkey with hold | hnew
  · exact absurd hold List.not_mem_nil
  · exact hnew.2

/-! A graph without cycles is visited to the end. -/

theorem visit_isSome {keys : List κ} {rank : κ → ℕ}
    (hrank : ∀ key ∈ keys, ∀ dep ∈ deps key, dep ∈ keys ∧ rank dep < rank key) {fuel : ℕ}
    {visiting visited : List κ} {key : κ} (hkey : key ∈ keys)
    (hvisiting : ∀ above ∈ visiting, above ∈ keys ∧ rank key < rank above)
    (hnodup : visiting.Nodup) (hfuel : keys.length < fuel + visiting.length) :
    (visit deps fuel visiting visited key).isSome = true := by
  have hnew : key ∉ visiting := fun hmem => absurd (hvisiting key hmem).2 (Nat.lt_irrefl _)
  induction fuel generalizing visiting visited key with
  | zero =>
    have hlt := length_lt_of_new hkey (fun above hmem => (hvisiting above hmem).1) hnodup hnew
    omega
  | succ fuel ih =>
    rw [visit, if_neg hnew]
    split
    · rfl
    · rw [Option.isSome_map]
      refine visitAll_isSome (fun visited dep hdep => ?_) visited
      obtain ⟨hmem, hlt⟩ := hrank key hkey dep hdep
      have habove : ∀ above ∈ key :: visiting, above ∈ keys ∧ rank dep < rank above := by
        intro above habove
        rcases List.mem_cons.mp habove with rfl | habove
        · exact ⟨hkey, hlt⟩
        · exact ⟨(hvisiting above habove).1, Nat.lt_trans hlt (hvisiting above habove).2⟩
      refine ih hmem habove (List.nodup_cons.mpr ⟨hnew, hnodup⟩) ?_ ?_
      · rw [List.length_cons]
        omega
      · exact fun hmem => absurd (habove dep hmem).2 (Nat.lt_irrefl _)

/-- The graphs without cycles are those that are visited to the end. -/
theorem visitKeys_isSome_iff {keys : List κ}
    (hclosed : ∀ key ∈ keys, ∀ dep ∈ deps key, dep ∈ keys) :
    (visitKeys deps keys).isSome = true ↔
      ∃ rank : κ → ℕ, ∀ key ∈ keys, ∀ dep ∈ deps key, rank dep < rank key := by
  constructor
  · intro h
    obtain ⟨order, horder⟩ := Option.isSome_iff_exists.mp h
    obtain ⟨hordered, hmem⟩ := ordered_of_visitKeys hclosed horder
    have hpositions : ∀ order : List κ, Ordered deps order → ∀ key ∈ order, ∀ dep ∈ deps key,
        order.reverse.idxOf dep < order.reverse.idxOf key := by
      intro order hordered
      induction order with
      | nil => exact fun key hkey => absurd hkey List.not_mem_nil
      | cons last rest ih =>
        obtain ⟨hnew, hdeps, hrest⟩ := hordered
        intro key hkey dep hdep
        rw [List.reverse_cons]
        by_cases hold : key ∈ rest
        · have hlt := ih hrest key hold dep hdep
          have hkeyMem : key ∈ rest.reverse := List.mem_reverse.mpr hold
          have hdepMem : dep ∈ rest.reverse :=
            List.idxOf_lt_length_iff.mp (Nat.lt_trans hlt (List.idxOf_lt_length_iff.mpr hkeyMem))
          rwa [List.idxOf_append_of_mem hdepMem, List.idxOf_append_of_mem hkeyMem]
        · obtain rfl := (List.mem_cons.mp hkey).resolve_right hold
          have hdepMem : dep ∈ rest.reverse := List.mem_reverse.mpr (hdeps dep hdep)
          rw [List.idxOf_append_of_mem hdepMem,
            List.idxOf_append_of_notMem fun h => hnew (List.mem_reverse.mp h)]
          have hlt := List.idxOf_lt_length_iff.mpr hdepMem
          omega
    exact ⟨order.reverse.idxOf, fun key hkey => hpositions order hordered key ((hmem key).mpr hkey)⟩
  · rintro ⟨rank, hrank⟩
    refine visitAll_isSome (fun visited key hkey => ?_) []
    exact visit_isSome (fun key hkey dep hdep => ⟨hclosed key hkey dep hdep, hrank key hkey dep hdep⟩)
      hkey (fun above habove => absurd habove List.not_mem_nil) List.nodup_nil (by simp)

end Visits

end CapabilityCompiler.Foundation.Precedence

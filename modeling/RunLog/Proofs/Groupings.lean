import Mathlib
import RunLog.Groups

/-!
# What a grouping holds

A look-up goes by the index, and the index agrees with the keys, so it answers with the
group beside the key (`get?_eq_some_iff`). One item more joins the group of its key or
makes a last group (`entries_add`). So a grouping has one group for each key that occurs,
in the order in which the keys are first seen, and the group of a key holds the items of
that key in their order (`entries_ofList`). All else that is said of groupings follows from
this one equation, as that no item is lost or doubled (`members_perm`). Sorting moves whole
groups only.
-/
namespace RunLog.Groups

variable {κ α : Type} [DecidableEq κ]

theorem eraseDups_filter (p : κ → Bool) :
    ∀ keys : List κ, (keys.filter p).eraseDups = keys.eraseDups.filter p
  | [] => rfl
  | key :: rest => by
      have ih := eraseDups_filter p (rest.filter fun k => !k == key)
      rw [List.eraseDups_cons]
      by_cases hp : p key = true
      · rw [List.filter_cons_of_pos hp, List.eraseDups_cons, List.filter_cons_of_pos hp, ← ih,
          List.filter_comm]
      · have absent : (rest.filter fun k => !k == key).filter p = rest.filter p := by
          rw [List.filter_filter]
          refine List.filter_congr fun k _ => ?_
          by_cases hk : k = key
          · simp [hk, hp]
          · simp [hk]
        rw [List.filter_cons_of_neg hp, List.filter_cons_of_neg hp, ← ih, absent]
termination_by keys => keys.length
decreasing_by exact Nat.lt_succ_of_le (List.length_filter_le _ rest)

theorem nodup_eraseDups : ∀ keys : List κ, keys.eraseDups.Nodup
  | [] => List.nodup_nil
  | key :: rest => by
      rw [List.eraseDups_cons, List.nodup_cons]
      refine ⟨fun h => ?_, nodup_eraseDups (rest.filter fun k => !k == key)⟩
      simpa using (List.mem_filter.mp (List.mem_eraseDups.mp h)).2
termination_by keys => keys.length
decreasing_by exact Nat.lt_succ_of_le (List.length_filter_le _ rest)

theorem eraseDups_concat (keys : List κ) (k : κ) :
    (keys ++ [k]).eraseDups = if k ∈ keys then keys.eraseDups else keys.eraseDups ++ [k] := by
  rw [List.eraseDups_append]
  split_ifs with h
  · simp [List.removeAll, h]
  · simp [List.removeAll, h, List.eraseDups_cons]

section Places

variable (g : Groups κ α)

theorem map_fst_entries : g.entries.map Prod.fst = g.keys :=
  List.map_fst_zip (le_of_eq g.paired.symm)

variable {g}

theorem get?_eq_some_iff {key : κ} {members : List α} :
    g.get? key = some members ↔ (key, members) ∈ g.entries := by
  rw [get?, Option.bind_eq_some_iff, entries, List.mem_iff_getElem?]
  constructor
  · rintro ⟨place, found, group⟩
    exact ⟨place, List.getElem?_zip_eq_some.mpr ⟨(g.indexed key place).mp found, group⟩⟩
  · rintro ⟨place, both⟩
    obtain ⟨found, group⟩ := List.getElem?_zip_eq_some.mp both
    exact ⟨place, (g.indexed key place).mpr found, group⟩

theorem isSome_get? {key : κ} : (g.get? key).isSome ↔ key ∈ g.keys := by
  rw [← map_fst_entries, List.mem_map, Option.isSome_iff_exists]
  constructor
  · rintro ⟨members, found⟩
    exact ⟨(key, members), get?_eq_some_iff.mp found, rfl⟩
  · rintro ⟨⟨_, members⟩, hentry, rfl⟩
    exact ⟨members, get?_eq_some_iff.mpr hentry⟩

/-- An item joins the group of its key, or else makes a last group. -/
theorem entries_add (key : κ) (item : α) :
    (g.add key item).entries =
      if key ∈ g.keys then
        g.entries.map fun (k, members) =>
          (k, if k = key then members ++ [item] else members)
      else g.entries ++ [(key, [item])] := by
  unfold add
  split
  · rename_i place found
    have here : g.keys[place]? = some key := (g.indexed key place).mp found
    rw [if_pos (List.mem_of_getElem? here)]
    have only (i : ℕ) (k : κ) (hi : g.keys[i]? = some k) : place = i ↔ k = key := by
      constructor
      · rintro rfl
        exact Option.some.inj (hi.symm.trans here)
      · rintro rfl
        exact Option.some.inj (found.symm.trans ((g.indexed k i).mpr hi))
    refine List.ext_getElem? fun i => ?_
    simp only [entries, List.zip, List.getElem?_map, List.getElem?_zipWith, List.getElem?_modify]
    cases hk : g.keys[i]? with
    | none => simp
    | some k => cases g.members[i]? <;> simp [only i k hk]
  · rename_i unknown
    have absent : key ∉ g.keys := by
      intro hmem
      obtain ⟨place, here⟩ := List.mem_iff_getElem?.mp hmem
      rw [(g.indexed key place).mpr here] at unknown
      cases unknown
    rw [if_neg absent]
    exact List.zip_append g.paired.symm

end Places

theorem ofList_concat (key : α → κ) (items : List α) (item : α) :
    ofList key (items ++ [item]) = (ofList key items).add (key item) item := by
  rw [ofList, List.foldl_append]
  rfl

/-- The groups have the keys in the order in which they are first seen, each with all items
of its key. -/
theorem entries_ofList (key : α → κ) (items : List α) :
    (ofList key items).entries =
      (items.map key).eraseDups.map fun k => (k, items.filter (key · = k)) := by
  induction items using List.reverseRecOn with
  | nil => rfl
  | append_singleton items item ih =>
      have keys : (ofList key items).keys = (items.map key).eraseDups := by
        rw [← map_fst_entries, ih, List.map_map, Function.comp_def, List.map_id']
      have group (k : κ) : (items ++ [item]).filter (key · = k) =
          if k = key item then items.filter (key · = k) ++ [item]
          else items.filter (key · = k) := by
        rw [List.filter_append, List.filter_singleton]
        by_cases h : k = key item
        · simp [h]
        · simp [h, Ne.symm h]
      simp only [ofList_concat, entries_add, keys, ih, List.map_append, List.map_singleton,
        eraseDups_concat, List.mem_eraseDups]
      split_ifs with seen
      · rw [List.map_map]
        refine List.map_congr_left fun k _ => ?_
        rw [group]
        rfl
      · have fresh : items.filter (key · = key item) = [] :=
          List.filter_eq_nil_iff.mpr fun other hother heq =>
            seen (List.mem_map.mpr ⟨other, hother, of_decide_eq_true heq⟩)
        rw [List.map_append, List.map_singleton, group, if_pos rfl, fresh, List.nil_append]
        congr 1
        refine List.map_congr_left fun k hk => ?_
        have other : k ≠ key item := fun heq => seen (heq ▸ List.mem_eraseDups.mp hk)
        rw [group, if_neg other]

theorem mem_entries {key : α → κ} {items : List α} {k : κ} {members : List α} :
    (k, members) ∈ (ofList key items).entries ↔
      (∃ item ∈ items, key item = k) ∧ members = items.filter (key · = k) := by
  simp only [entries_ofList, List.mem_map, List.mem_eraseDups, Prod.mk.injEq]
  constructor
  · rintro ⟨k, hk, rfl, rfl⟩
    exact ⟨hk, rfl⟩
  · rintro ⟨hk, rfl⟩
    exact ⟨k, hk, rfl, rfl⟩

theorem keys_ofList (key : α → κ) (items : List α) :
    (ofList key items).keys = (items.map key).eraseDups := by
  rw [← map_fst_entries, entries_ofList, List.map_map, Function.comp_def, List.map_id']

theorem members_ne_nil {key : α → κ} {items : List α} {k : κ} {members : List α}
    (h : (k, members) ∈ (ofList key items).entries) : members ≠ [] := by
  obtain ⟨⟨item, hitem, hkey⟩, rfl⟩ := mem_entries.mp h
  exact List.ne_nil_of_mem (List.mem_filter.mpr ⟨hitem, decide_eq_true hkey⟩)

theorem size_ofList (key : α → κ) (items : List α) :
    (ofList key items).size = (items.map key).toFinset.card := by
  have same : (items.map key).eraseDups.toFinset = (items.map key).toFinset := by
    ext k
    simp
  rw [size, keys_ofList, ← same, List.toFinset_card_of_nodup (nodup_eraseDups _)]

/-- Items taken key by key are the items, if each key of theirs is taken once. -/
theorem flatMap_filter_perm (key : α → κ) {keys : List κ} (distinct : keys.Nodup)
    {items : List α} (taken : ∀ item ∈ items, key item ∈ keys) :
    (keys.flatMap fun k => items.filter (key · = k)).Perm items := by
  induction keys generalizing items with
  | nil =>
      have nothing : items = [] :=
        List.eq_nil_iff_forall_not_mem.mpr fun item hitem => List.not_mem_nil (taken item hitem)
      rw [nothing, List.flatMap_nil]
  | cons first rest ih =>
      obtain ⟨fresh, later⟩ := List.nodup_cons.mp distinct
      have behind : (rest.flatMap fun k => items.filter (key · = k)) =
          rest.flatMap fun k => (items.filter fun item => !decide (key item = first)).filter
            (key · = k) := by
        refine List.flatMap_congr fun k hk => ?_
        rw [List.filter_filter]
        refine List.filter_congr fun item _ => ?_
        by_cases h : key item = k
        · have hne : k ≠ first := fun heq => fresh (heq ▸ hk)
          simp [h, hne]
        · simp [h]
      have others : ∀ item ∈ items.filter fun item => !decide (key item = first),
          key item ∈ rest := by
        intro item hitem
        obtain ⟨hmem, hne⟩ := List.mem_filter.mp hitem
        exact (List.mem_cons.mp (taken item hmem)).resolve_left (by simpa using hne)
      rw [List.flatMap_cons, behind]
      exact ((ih later others).append_left _).trans (List.filter_append_perm _ items)

/-- No item is lost and none is doubled. -/
theorem members_perm (key : α → κ) (items : List α) :
    ((ofList key items).entries.flatMap Prod.snd).Perm items := by
  rw [entries_ofList, List.flatMap_map]
  exact flatMap_filter_perm key (nodup_eraseDups _) fun item hitem =>
    List.mem_eraseDups.mpr (List.mem_map_of_mem hitem)

theorem sorted_perm [Ord κ] (g : Groups κ α) : g.sorted.Perm g.entries :=
  List.mergeSort_perm _ _

theorem sorted_keys_perm [Ord κ] (key : α → κ) (items : List α) :
    ((ofList key items).sorted.map Prod.fst).Perm (items.map key).eraseDups := by
  rw [← keys_ofList]
  exact ((sorted_perm (ofList key items)).map _).trans (.of_eq (map_fst_entries _))

theorem mem_sorted [Ord κ] {key : α → κ} {items : List α} {k : κ} {members : List α} :
    (k, members) ∈ (ofList key items).sorted ↔
      (∃ item ∈ items, key item = k) ∧ members = items.filter (key · = k) := by
  rw [(sorted_perm (ofList key items)).mem_iff, mem_entries]

theorem sorted_ascending [Ord κ] [Std.TransOrd κ] [Std.LawfulEqOrd κ] (key : α → κ)
    (items : List α) :
    (ofList key items).sorted.Pairwise fun a b => compare a.1 b.1 = .lt := by
  have trans : ∀ a b c : κ × List α, (compare a.1 b.1).isLE = true →
      (compare b.1 c.1).isLE = true → (compare a.1 c.1).isLE = true :=
    fun a b c hab hbc => Std.TransOrd.isLE_trans hab hbc
  have total : ∀ a b : κ × List α, ((compare a.1 b.1).isLE || (compare b.1 a.1).isLE) = true := by
    intro a b
    rw [Std.OrientedOrd.eq_swap (a := a.1)]
    cases compare b.1 a.1 <;> rfl
  have ordered : (ofList key items).sorted.Pairwise fun a b => (compare a.1 b.1).isLE = true :=
    List.pairwise_mergeSort trans total _
  have distinct : ((ofList key items).sorted.map Prod.fst).Nodup :=
    (sorted_keys_perm key items).nodup_iff.mpr (nodup_eraseDups _)
  refine (ordered.and (List.pairwise_map.mp distinct)).imp ?_
  rintro a b ⟨hle, hne⟩
  rcases Ordering.isLE_iff_eq_lt_or_eq_eq.mp hle with hlt | heq
  · exact hlt
  · exact absurd (Std.LawfulEqCmp.eq_of_compare heq) hne

/-- A grouping shares its items out. Its keys are those of the items, in the order in which
they are first seen; the group of a key holds the items with that key in their order, and
a look-up finds it under its key and under no other; groups are not empty, there are as many
as different keys, and together they hold every item once. Sorting leaves the groups as they
are, and puts them in the strict order of their keys. -/
theorem ofList_shares_out [Ord κ] [Std.TransOrd κ] [Std.LawfulEqOrd κ] (key : α → κ)
    (items : List α) :
    let g : Groups κ α := ofList key items
    g.keys = (items.map key).eraseDups ∧
    g.entries = g.keys.map (fun k => (k, items.filter (key · = k))) ∧
    (∀ k, (g.get? k).isSome ↔ k ∈ g.keys) ∧
    (∀ k members, g.get? k = some members ↔ (k, members) ∈ g.entries) ∧
    (∀ entry ∈ g.entries, entry.2 ≠ []) ∧
    g.size = (items.map key).toFinset.card ∧
    (g.entries.flatMap Prod.snd).Perm items ∧
    g.sorted.Perm g.entries ∧
    g.sorted.Pairwise fun a b => compare a.1 b.1 = .lt := by
  intro g
  have groups : g.entries = g.keys.map fun k => (k, items.filter (key · = k)) := by
    rw [keys_ofList, entries_ofList]
  exact ⟨keys_ofList key items, groups, fun _ => isSome_get?, fun _ _ => get?_eq_some_iff,
    fun _ hentry => members_ne_nil hentry, size_ofList key items, members_perm key items,
    sorted_perm g, sorted_ascending key items⟩

theorem ofList_shares_out_words :
    let words := ["rcu", "ab", "htm", "cd"].map String.toList
    let g := ofList List.length words
    g.keys = [3, 2] ∧ g.get? 2 = some (["ab", "cd"].map String.toList) ∧ g.size = 2 ∧
      (g.entries.flatMap Prod.snd).Perm words ∧
      g.sorted.Pairwise fun a b => compare a.1 b.1 = .lt := by
  intro words g
  obtain ⟨keys, -, -, found, -, size, perm, -, ascending⟩ := ofList_shares_out List.length words
  exact ⟨keys, (found 2 _).mpr (by decide), size, perm, ascending⟩

end RunLog.Groups

import Mathlib
import RunLog.Proofs.Rankings

/-!
# Leaderboards share out the runs

There is one board for each kind and thread count that occurs (`mem_ofRecords`).
The boards of a kind stand together, in the order in which the kinds are first
seen, and their thread counts ascend (`filter_ofRecords`). A board ranks the runs
of its kind and thread count and no others. Together this says that every run
stands in exactly one place.
-/
namespace RunLog.Leaderboard
variable {criterion : Criterion} {runs : List Record}

/-- The runs of one kind at one thread count. -/
def members (runs : List Record) (kind : Kind) (threads : Nat) : List Record :=
  runs.filter fun r => r.kind = kind ∧ r.threads = threads

theorem members_eq (runs : List Record) (kind : Kind) (threads : Nat) :
    (runs.filter (·.kind = kind)).filter (·.threads = threads) = members runs kind threads := by
  rw [List.filter_filter, members]
  refine List.filter_congr fun r _ => ?_
  rw [Bool.and_comm, ← Bool.decide_and]

def boardsOf (criterion : Criterion) (runs : List Record) (kind : Kind) : List Leaderboard :=
  (Groups.ofList Record.threads (runs.filter (·.kind = kind))).sorted.map fun (threads, group) =>
    ⟨kind, threads, entriesOf criterion group⟩

theorem ofRecords_eq (criterion : Criterion) (runs : List Record) :
    ofRecords criterion runs =
      (runs.map Record.kind).eraseDups.flatMap (boardsOf criterion runs) := by
  rw [ofRecords, Groups.entries_ofList, List.flatMap_map]
  rfl

theorem mem_boardsOf {kind : Kind} {b : Leaderboard} :
    b ∈ boardsOf criterion runs kind ↔
      ∃ threads, (∃ r ∈ runs, r.kind = kind ∧ r.threads = threads) ∧
        b = ⟨kind, threads, entriesOf criterion (members runs kind threads)⟩ := by
  simp only [boardsOf, List.mem_map, Prod.exists, Groups.mem_sorted, List.mem_filter,
    decide_eq_true_eq, members_eq, and_assoc]
  constructor
  · rintro ⟨threads, group, hocc, rfl, rfl⟩
    exact ⟨threads, hocc, rfl⟩
  · rintro ⟨threads, hocc, rfl⟩
    exact ⟨threads, _, hocc, rfl, rfl⟩

theorem mem_ofRecords {b : Leaderboard} :
    b ∈ ofRecords criterion runs ↔
      (∃ r ∈ runs, r.kind = b.kind ∧ r.threads = b.threads) ∧
        b.entries = entriesOf criterion (members runs b.kind b.threads) := by
  rw [ofRecords_eq, List.mem_flatMap]
  constructor
  · rintro ⟨kind, -, hb⟩
    obtain ⟨threads, hocc, rfl⟩ := mem_boardsOf.mp hb
    exact ⟨hocc, rfl⟩
  · rintro ⟨⟨r, hr, hkind, hthreads⟩, hentries⟩
    refine ⟨b.kind, ?_, mem_boardsOf.mpr ⟨b.threads, ⟨r, hr, hkind, hthreads⟩, ?_⟩⟩
    · exact List.mem_eraseDups.mpr (List.mem_map.mpr ⟨r, hr, hkind⟩)
    · rw [← hentries]

theorem boardsOf_filter (kind other : Kind) :
    (boardsOf criterion runs kind).filter (·.kind = other) =
      if kind = other then boardsOf criterion runs kind else [] := by
  have kinds : ∀ b ∈ boardsOf criterion runs kind, b.kind = kind := by
    intro b hb
    obtain ⟨threads, -, rfl⟩ := mem_boardsOf.mp hb
    rfl
  split_ifs with h
  · exact List.filter_eq_self.mpr fun b hb => decide_eq_true ((kinds b hb).trans h)
  · exact List.filter_eq_nil_iff.mpr fun b hb hother =>
      h ((kinds b hb).symm.trans (of_decide_eq_true hother))

theorem flatMap_single {kinds : List Kind} (distinct : kinds.Nodup) {kind : Kind}
    (hkind : kind ∈ kinds) (boards : Kind → List Leaderboard) :
    (kinds.flatMap fun k => if k = kind then boards k else []) = boards kind := by
  induction kinds with
  | nil => cases hkind
  | cons first rest ih =>
      obtain ⟨fresh, later⟩ := List.nodup_cons.mp distinct
      rw [List.flatMap_cons]
      rcases List.mem_cons.mp hkind with rfl | hrest
      · have none_later : (rest.flatMap fun k => if k = kind then boards k else []) = [] := by
          refine List.flatMap_eq_nil_iff.mpr fun k hk => if_neg ?_
          rintro rfl
          exact fresh hk
        rw [if_pos rfl, none_later, List.append_nil]
      · have hne : first ≠ kind := by
          rintro rfl
          exact fresh hrest
        rw [if_neg hne, List.nil_append, ih later hrest]

/-- Of all boards, those of a kind are the ones that it has by itself. -/
theorem filter_ofRecords {kind : Kind} (h : kind ∈ (runs.map Record.kind).eraseDups) :
    (ofRecords criterion runs).filter (·.kind = kind) = boardsOf criterion runs kind := by
  rw [ofRecords_eq, List.filter_flatMap]
  simp only [boardsOf_filter]
  exact flatMap_single (Groups.nodup_eraseDups _) h _

theorem boardsOf_ascending (criterion : Criterion) (runs : List Record) (kind : Kind) :
    (boardsOf criterion runs kind).Pairwise fun a b => a.threads < b.threads := by
  rw [boardsOf, List.pairwise_map]
  exact (Groups.sorted_ascending Record.threads _).imp Nat.compare_eq_lt.mp

theorem nodup_ofRecords (criterion : Criterion) (runs : List Record) :
    ((ofRecords criterion runs).map fun b => (b.kind, b.threads)).Nodup := by
  rw [ofRecords_eq, List.map_flatMap, List.nodup_flatMap]
  refine ⟨fun kind _ => ?_, (Groups.nodup_eraseDups _).imp ?_⟩
  · rw [List.Nodup, List.pairwise_map]
    refine (boardsOf_ascending criterion runs kind).imp fun {a b} hlt heq => ?_
    exact Nat.ne_of_lt hlt (congrArg Prod.snd heq)
  · intro kind other hne pair hpair hpair'
    obtain ⟨b, hb, rfl⟩ := List.mem_map.mp hpair
    obtain ⟨b', hb', heq⟩ := List.mem_map.mp hpair'
    obtain ⟨threads, -, rfl⟩ := mem_boardsOf.mp hb
    obtain ⟨threads', -, rfl⟩ := mem_boardsOf.mp hb'
    exact hne (congrArg Prod.fst heq).symm

theorem exists_ranked (criterion : Criterion) (group : List Record) :
    ∃ ranked, Ranking.Ranked criterion.value? group ranked ∧
      entriesOf criterion group =
        ranked.zipIdx.map fun (r, n) => ⟨n, r.variant, r.throughput, criterion.value? r⟩ :=
  ⟨_, Ranking.order_ranked group, rfl⟩

/-- The boards of a kind stand together. -/
theorem ofRecords_eq_flatMap_filter (criterion : Criterion) (runs : List Record) :
    ofRecords criterion runs = (runs.map Record.kind).eraseDups.flatMap
      fun kind => (ofRecords criterion runs).filter (·.kind = kind) := by
  conv_lhs => rw [ofRecords_eq]
  exact List.flatMap_congr fun kind hkind => (filter_ofRecords hkind).symm

theorem filter_ascending (criterion : Criterion) (runs : List Record) (kind : Kind) :
    ((ofRecords criterion runs).filter (·.kind = kind)).Pairwise
      fun a b => a.threads < b.threads := by
  by_cases hkind : kind ∈ (runs.map Record.kind).eraseDups
  · rw [filter_ofRecords hkind]
    exact boardsOf_ascending criterion runs kind
  · have absent : (ofRecords criterion runs).filter (·.kind = kind) = [] := by
      refine List.filter_eq_nil_iff.mpr fun b hb hb' => hkind ?_
      obtain ⟨⟨r, hr, hrk, -⟩, -⟩ := mem_ofRecords.mp hb
      exact List.mem_eraseDups.mpr
        (List.mem_map.mpr ⟨r, hr, hrk.trans (of_decide_eq_true hb')⟩)
    rw [absent]
    exact .nil

/-- Every kind and thread count that occurs has one board, which is not empty, and there are
no others. The kinds come in the order in which they are first seen, the boards of a kind stand
together, and their thread counts ascend. A board ranks exactly the runs of its kind and thread
count, numbers them from zero, and shows the variant, throughput and value of each. -/
theorem ofRecords_shares_out (criterion : Criterion) (runs : List Record) :
    let boards := ofRecords criterion runs
    (∀ kind threads, (∃ b ∈ boards, b.kind = kind ∧ b.threads = threads) ↔
      ∃ r ∈ runs, r.kind = kind ∧ r.threads = threads) ∧
    (boards.map fun b => (b.kind, b.threads)).Nodup ∧
    boards = (runs.map Record.kind).eraseDups.flatMap
      (fun kind => boards.filter (·.kind = kind)) ∧
    (∀ kind, (boards.filter (·.kind = kind)).Pairwise fun a b => a.threads < b.threads) ∧
    ∀ b ∈ boards, b.entries ≠ [] ∧ ∃ ranked,
      Ranking.Ranked criterion.value?
        (runs.filter fun r => r.kind = b.kind ∧ r.threads = b.threads) ranked ∧
      b.entries =
        ranked.zipIdx.map fun (r, n) => ⟨n, r.variant, r.throughput, criterion.value? r⟩ := by
  intro boards
  refine ⟨fun kind threads => ⟨?_, ?_⟩, nodup_ofRecords criterion runs,
    ofRecords_eq_flatMap_filter criterion runs, filter_ascending criterion runs,
    fun b hb => ?_⟩
  · rintro ⟨b, hb, rfl, rfl⟩
    exact (mem_ofRecords.mp hb).1
  · intro hocc
    exact ⟨⟨kind, threads, entriesOf criterion (members runs kind threads)⟩,
      mem_ofRecords.mpr ⟨hocc, rfl⟩, rfl, rfl⟩
  · obtain ⟨⟨r, hr, hkind, hthreads⟩, hentries⟩ := mem_ofRecords.mp hb
    obtain ⟨ranked, hranked, hshown⟩ :=
      exists_ranked criterion (members runs b.kind b.threads)
    refine ⟨?_, ranked, hranked, hentries.trans hshown⟩
    rw [hentries, hshown]
    have hmem : r ∈ ranked :=
      hranked.perm.mem_iff.mpr (List.mem_filter.mpr ⟨hr, decide_eq_true ⟨hkind, hthreads⟩⟩)
    simpa using List.ne_nil_of_mem hmem

end RunLog.Leaderboard

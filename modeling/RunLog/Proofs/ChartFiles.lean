import Mathlib
import RunLog.Proofs.DraftHistory
import RunLog.Proofs.FolderWrites
import RunLog.Proofs.Groupings
import RunLog.Proofs.RecordValidity

/-!
# The files of charts

The chart of a kind is kept in a file that is named for the kind, with a dash for every
slash. That is a name of its own for most kinds. Logs announce workloads by any word,
though, and a word may be the name of a known kind, or the same as another word up to
dashes and slashes; `Kind.Clash` lists these cases, and there are no others
(`dashed_name_eq_iff`). The charts of kinds that clash go to one file, one after the
other, and the last one stays.
-/
namespace RunLog

namespace Chart

def dashed (t : Text) : Text :=
  t.map fun c => if c = '/' then '-' else c

theorem slash_notMem_dashed (t : Text) : '/' ∉ dashed t := by
  intro hmem
  obtain ⟨c, -, hc⟩ := List.mem_map.mp hmem
  split_ifs at hc with slash
  · cases hc
  · exact slash hc

/-- Without a dash in it, a text is told from its dashed form. -/
theorem eq_of_dashed_eq {s t : Text} (h : dashed s = t) (dashless : '-' ∉ t) : s = t := by
  have slashless : ∀ c ∈ s, (if c = '/' then '-' else c) = c := by
    intro c hc
    rw [if_neg]
    rintro rfl
    exact dashless (h ▸ List.mem_map_of_mem (f := fun c => if c = '/' then '-' else c) hc)
  rw [← h, dashed, List.map_congr_left slashless, List.map_id']

theorem fileStem_best (kind : Kind) (highlight : Option Text) (records : List Record) :
    (best kind highlight records).fileStem = "best-".toList ++ dashed kind.name := by
  rw [fileStem, best, List.map_append]
  rfl

end Chart

namespace Kind
open Chart

/-- Logs make the kind known: it is announced by a word, or it is that of the micro benchmark. -/
def Logged (kind : Kind) : Prop :=
  kind = .micro ∨ ∃ word, kind = ofWord word

/-- Two kinds with one name for the files of their charts. -/
inductive Clash : Kind → Kind → Prop
  | words {first second : Text} : first ≠ second → dashed first = dashed second →
      Clash (.other first) (.other second)
  | micro : Clash .micro (.other "MICRO".toList)
  | readOnly {word : Text} : dashed word = "TPCC-READONLY".toList →
      Clash .tpccReadOnly (.other word)

theorem Logged.other {word : Text} (h : Logged (.other word)) :
    word ≠ "TPCC".toList ∧ word ≠ "YCSB".toList ∧ word ≠ "TEST".toList := by
  rcases h with h | ⟨announced, h⟩
  · cases h
  · unfold ofWord at h
    split_ifs at h with tpcc read ycsb test
    cases h
    exact ⟨tpcc, ycsb, test⟩

theorem Clash.ne {a b : Kind} (h : a.Clash b) : a ≠ b := by
  cases h with
  | words different _ => simpa using different
  | micro => simp
  | readOnly _ => simp

theorem Clash.dashed_name {a b : Kind} (h : a.Clash b) : dashed a.name = dashed b.name := by
  cases h with
  | words _ same => exact same
  | micro => rfl
  | readOnly same => exact same.symm

/-- A known kind and a word that is not read as one. -/
theorem clash_of_dashed {known : Kind} {word : Text} (logged : Logged (.other word))
    (hknown : ∀ name, known ≠ .other name) (same : dashed known.name = dashed word) :
    known.Clash (.other word) := by
  obtain ⟨tpcc, ycsb, test⟩ := logged.other
  cases known with
  | tpcc => exact absurd (eq_of_dashed_eq same.symm (by decide)) tpcc
  | ycsb => exact absurd (eq_of_dashed_eq same.symm (by decide)) ycsb
  | test => exact absurd (eq_of_dashed_eq same.symm (by decide)) test
  | tpccReadOnly => exact .readOnly same.symm
  | micro =>
      obtain rfl : word = "MICRO".toList := eq_of_dashed_eq same.symm (by decide)
      exact .micro
  | other name => exact absurd rfl (hknown name)

/-- Kinds that logs make known have different files unless they are listed as a clash. -/
theorem dashed_name_eq_iff {a b : Kind} (ha : a.Logged) (hb : b.Logged) :
    dashed a.name = dashed b.name ↔ a = b ∨ a.Clash b ∨ b.Clash a := by
  constructor
  · intro same
    by_cases hne : a = b
    · exact .inl hne
    · by_cases first : ∃ word, a = .other word
      · obtain ⟨word, rfl⟩ := first
        by_cases second : ∃ word, b = .other word
        · obtain ⟨word', rfl⟩ := second
          exact .inr (.inl (.words (by simpa using hne) same))
        · exact .inr (.inr (clash_of_dashed ha (fun name h => second ⟨name, h⟩) same.symm))
      · by_cases second : ∃ word, b = .other word
        · obtain ⟨word, rfl⟩ := second
          exact .inr (.inl (clash_of_dashed hb (fun name h => first ⟨name, h⟩) same))
        · -- The known kinds have names of their own.
          exfalso
          cases a <;> cases b <;>
            first
              | exact hne rfl
              | exact first ⟨_, rfl⟩
              | exact second ⟨_, rfl⟩
              | exact absurd same (by decide)
  · rintro (rfl | clash | clash)
    · rfl
    · exact clash.dashed_name
    · exact clash.dashed_name.symm

end Kind

theorem Draft.Told.kind {said : Marker → Prop} {d : Draft} (h : d.Told said) {kind : Kind}
    (hkind : d.kind = some kind) : kind.Logged := by
  rcases h.field (fun _ _ _ => rfl) (fun hnote => (Draft.note_ok hnote).2.kind) hkind with
    start | start | ⟨m, -, told⟩
  · cases start
  · cases start
    exact .inl rfl
  · cases m <;> cases told
    exact .inr ⟨_, rfl⟩

theorem Record.Parsed.kind {r : Record} (h : r.Parsed) : r.kind.Logged :=
  h.of_told (p := fun r => r.kind.Logged) (fun _ _ _ _ _ _ => trivial) Iff.rfl
    fun told complete => told.kind (Draft.complete_ok complete).kind

namespace Chart

theorem fileStems_all (highlight : Option Text) (records : List Record) :
    (all highlight records).map fileStem =
      (records.map Record.kind).eraseDups.map fun kind => "best-".toList ++ dashed kind.name := by
  rw [all, Groups.keys_ofList, List.map_map]
  exact List.map_congr_left fun kind _ => fileStem_best kind highlight records

theorem nodup_fileStems {highlight : Option Text} {records : List Record}
    (parsed : ∀ r ∈ records, r.Parsed) :
    ((all highlight records).map fileStem).Nodup ↔
      ∀ a ∈ (records.map Record.kind).eraseDups, ∀ b ∈ (records.map Record.kind).eraseDups,
        ¬ a.Clash b := by
  have logged : ∀ kind ∈ (records.map Record.kind).eraseDups, kind.Logged := by
    intro kind hkind
    obtain ⟨r, hr, rfl⟩ := List.mem_map.mp (List.mem_eraseDups.mp hkind)
    exact (parsed r hr).kind
  rw [fileStems_all, List.nodup_map_iff_inj_on (Groups.nodup_eraseDups _)]
  constructor
  · intro different a ha b hb clash
    exact clash.ne (different a ha b hb (congrArg _ clash.dashed_name))
  · intro apart a ha b hb same
    have same := List.append_cancel_left same
    rcases (Kind.dashed_name_eq_iff (logged a ha) (logged b hb)).mp same with h | h | h
    · exact h
    · exact absurd h (apart a ha b hb)
    · exact absurd h (apart b hb a ha)

theorem isFileName {highlight : Option Text} {records : List Record} :
    ∀ c ∈ all highlight records, Folder.IsFileName (c.fileStem ++ ".json".toList) := by
  intro c hc
  obtain ⟨kind, -, rfl⟩ := List.mem_map.mp hc
  rw [fileStem_best]
  refine ⟨?_, by simp [Folder.isIdle], by simp [Place.dots]⟩
  simp [slash_notMem_dashed]

end Chart

namespace Store
open Chart

/-- The charts of a store that only read sources are one for each kind, and their file names
are different as long as no two of the kinds clash. When they are kept in a folder, the file
of each chart holds the last one of its name, which is the chart itself if the names are
different. -/
theorem charts_kept (options : Options) (requests : List Request)
    (unpushed : ∀ r, .push r ∉ requests) (highlight : Option Text) :
    let records := ((empty options).performAll requests).1.records
    let kinds := (records.map Record.kind).eraseDups
    let charts := Chart.all highlight records
    charts.map Chart.fileStem = kinds.map (fun kind => "best-".toList ++ dashed kind.name) ∧
    ((charts.map Chart.fileStem).Nodup ↔ ∀ a ∈ kinds, ∀ b ∈ kinds, ¬ a.Clash b) ∧
    ∀ (folder : Text) (f after : Folder),
      f.changeAll (Plan.keepCharts (some folder) charts) = (after, none) →
        ∀ c ∈ charts, ∃ last,
          (charts.filter (·.fileStem = c.fileStem)).getLast? = some last ∧
          after.read (c.path folder) = .ok (Utf8.encode last.json) ∧
          ((charts.map Chart.fileStem).Nodup → last = c) := by
  intro records kinds charts
  refine ⟨fileStems_all highlight records,
    nodup_fileStems (parsed_of_unpushed options unpushed), fun folder f after kept c hc => ?_⟩
  obtain ⟨next, -, written⟩ := Folder.changeAll_cons_ok kept
  change next.changeAll (charts.map
    (Folder.keep folder (fun c => c.fileStem ++ ".json".toList) Chart.json)) = _ at written
  obtain ⟨last, found, read⟩ := Folder.read_changeAll Chart.isFileName written hc
  simp only [List.append_cancel_right_eq] at found
  refine ⟨last, found, read, fun different => ?_⟩
  obtain ⟨hlast, same⟩ := List.mem_filter.mp (List.mem_of_getLast? found)
  exact List.inj_on_of_nodup_map different hlast hc (of_decide_eq_true same)

/-- Runs of three workloads, two of which differ in a dash for a slash. -/
def slashLog : Source :=
  .ofText (Table.lines
    (["mem_allocator initialized!", "Running TPCC workload", "RBT implementation treap",
      "running 2 threads", "Throughput(Ops/usec): 1.5", "Expected size of MAP: 10",
      "mem_allocator initialized!", "Running A/B workload", "RBT implementation treap",
      "running 2 threads", "Throughput(Ops/usec): 2.5", "Expected size of MAP: 10",
      "mem_allocator initialized!", "Running A-B workload", "RBT implementation treap",
      "running 2 threads", "Throughput(Ops/usec): 3.5", "Expected size of MAP: 10"].map
        String.toList))

def slashRecords : List Record :=
  ((empty .standard).performAll [.ingest "a.log".toList slashLog]).1.records

theorem slashRecords_kinds : slashRecords.map Record.kind =
    [.tpcc, .other "A/B".toList, .other "A-B".toList] := by
  have found : ∃ outcome, Outcome.ofSource .standard slashLog = .ok outcome ∧
      outcome.records.map Record.kind = [.tpcc, .other "A/B".toList, .other "A-B".toList] := by
    rw [Outcome.ofSource_of_pos (by decide), slashLog, Source.lines, Table.lines,
      Source.texts_ofText (Text.forall_isLine (by decide))]
    exact ⟨_, rfl, rfl⟩
  obtain ⟨outcome, found, kinds⟩ := found
  have records : slashRecords = outcome.records := Request.records_of_ok found
  rw [records, kinds]

theorem slashRecords_stems : (Chart.all none slashRecords).map Chart.fileStem =
    ["best-TPCC".toList, "best-A-B".toList, "best-A-B".toList] := by
  rw [fileStems_all, slashRecords_kinds]
  rfl

theorem keep_slashRecords (first second third : Text) :
    (Folder.empty.changeAll [.makeFolder "out".toList,
      .writeFile (Folder.join "out".toList ("best-TPCC".toList ++ ".json".toList)) first,
      .writeFile (Folder.join "out".toList ("best-A-B".toList ++ ".json".toList)) second,
      .writeFile (Folder.join "out".toList ("best-A-B".toList ++ ".json".toList)) third]).2 =
        none := by
  cbv

theorem charts_kept_slashRecords :
    let charts := Chart.all none slashRecords
    (∀ r, Request.push r ∉ [Request.ingest "a.log".toList slashLog]) ∧ charts.length = 3 ∧
      ∃ after, Folder.empty.changeAll (Plan.keepCharts (some "out".toList) charts) = (after, none) ∧
        ∀ c ∈ charts, ∃ last,
          (charts.filter (·.fileStem = c.fileStem)).getLast? = some last ∧
            after.read (c.path "out".toList) = .ok (Utf8.encode last.json) := by
  intro charts
  have unpushed : ∀ r, Request.push r ∉ [Request.ingest "a.log".toList slashLog] := by simp
  have names : charts.map Chart.fileStem = _ := slashRecords_stems
  have three : charts.length = 3 := by simpa using congrArg List.length names
  have written : ∃ after,
      Folder.empty.changeAll (Plan.keepCharts (some "out".toList) charts) = (after, none) := by
    obtain ⟨first, second, third, shape⟩ := List.length_eq_three.mp three
    rw [shape] at names ⊢
    simp only [List.map_cons, List.map_nil, List.cons.injEq, and_true] at names
    simp only [Plan.keepCharts, List.map_cons, List.map_nil, Chart.change, Chart.path, names]
    exact ⟨_, Prod.ext rfl (keep_slashRecords first.json second.json third.json)⟩
  obtain ⟨after, written⟩ := written
  obtain ⟨-, -, kept⟩ := charts_kept .standard _ unpushed none
  refine ⟨unpushed, three, after, written, fun c hc => ?_⟩
  obtain ⟨last, found, read, -⟩ := kept "out".toList .empty after written c hc
  exact ⟨last, found, read⟩

/-- Two of the three kinds have one file. -/
theorem slash_and_dash_share_file :
    slashRecords.map Record.kind = [.tpcc, .other "A/B".toList, .other "A-B".toList] ∧
      (Chart.all none slashRecords).map Chart.fileStem =
        ["best-TPCC".toList, "best-A-B".toList, "best-A-B".toList] ∧
      ¬ ((Chart.all none slashRecords).map Chart.fileStem).Nodup := by
  refine ⟨slashRecords_kinds, slashRecords_stems, ?_⟩
  rw [slashRecords_stems]
  decide

end Store

end RunLog

import Mathlib.Data.List.Basic
import RunLog.Proofs.ClosenessLaw
import RunLog.Store

/-!
# The history of a store

A store is asked to read sources, to take over records and to measure what it
holds, in any order. Each request does to it what it would do to an empty store
with the same options, put behind what is there: `Grown` says so for any number
of requests, `Grown.perform` for one of them. Measuring is the exception, as it
reaches back to all records; but it only touches what is left out of account here,
and it sees nothing of what was measured before.

A request that fails is answered with its fault, and the store is the one that was
asked.
-/
namespace RunLog

inductive Request where
  | ingest (name : Text) (source : Source)
  | push (r : Record)
  | annotate

namespace Store

/-- The store behind a request, and how many records were added or why none were. -/
def perform (s : Store) : Request → Store × Except Fault Nat
  | .ingest name source =>
      match s.ingest name source with
      | .ok (after, added) => (after, .ok added)
      | .error f => (s, .error f)
  | .push r => (s.push r, .ok 1)
  | .annotate => (s.annotate, .ok 0)

/-- The store behind requests one after another, and the answers to them. -/
def performAll : Store → List Request → Store × List (Except Fault Nat)
  | s, [] => (s, [])
  | s, request :: rest =>
      let next := s.perform request
      let last := performAll next.1 rest
      (last.1, next.2 :: last.2)

end Store

namespace Request

/-- The records that a request brings into an empty store. -/
def records (options : Options) (request : Request) : List Record :=
  ((Store.empty options).perform request).1.records

/-- The answer of an empty store. -/
def answer (options : Options) (request : Request) : Except Fault Nat :=
  ((Store.empty options).perform request).2

/-- The name of a source that is read to its end, and what was found in it. -/
def outcome? (options : Options) : Request → Option (Text × Outcome)
  | .ingest name source =>
      match Outcome.ofSource options source with
      | .ok outcome => some (name, outcome)
      | .error _ => none
  | .push _ => none
  | .annotate => none

end Request

/-- What a source is found to hold, as diagnostics that name it. -/
def Outcome.diagnostics (name : Text) (outcome : Outcome) : List Diagnostic :=
  outcome.faults.map (⟨name, ·⟩)

namespace Store

/-- What requests make of a store: behind its records stand those that each request brings into
an empty store, and behind its diagnostics those of the sources that are read to their end. -/
structure Grown (s : Store) (requests : List Request) (last : Store) : Prop where
  options : last.options = s.options
  records : last.records.map Record.unmeasured =
    s.records.map Record.unmeasured ++
      (requests.flatMap (Request.records s.options)).map Record.unmeasured
  diagnostics : last.diagnostics =
    s.diagnostics ++ (requests.filterMap (Request.outcome? s.options)).flatMap
      fun (name, outcome) => outcome.diagnostics name
  sources : last.sources = s.sources + (requests.filterMap (Request.outcome? s.options)).length

theorem perform_ingest_ok {s : Store} {name : Text} {source : Source} {outcome : Outcome}
    (h : Outcome.ofSource s.options source = .ok outcome) :
    s.perform (.ingest name source) = (s.add name outcome, .ok outcome.records.length) := by
  rw [perform, ingest, h]
  rfl

theorem perform_ingest_error {s : Store} {name : Text} {source : Source} {f : Fault}
    (h : Outcome.ofSource s.options source = .error f) :
    s.perform (.ingest name source) = (s, .error f) := by
  rw [perform, ingest, h]
  rfl

end Store

namespace Request
variable {options : Options} {name : Text} {source : Source}

theorem records_of_ok {outcome : Outcome} (h : Outcome.ofSource options source = .ok outcome) :
    (ingest name source).records options = outcome.records := by
  rw [records, Store.perform_ingest_ok h]
  rfl

theorem records_of_error {f : Fault} (h : Outcome.ofSource options source = .error f) :
    (ingest name source).records options = [] := by
  rw [records, Store.perform_ingest_error h]
  rfl

@[simp] theorem records_push (r : Record) : (push r).records options = [r] := rfl
@[simp] theorem records_annotate : annotate.records options = [] := rfl

end Request

namespace Store

/-- One request makes the store grow by what it brings into an empty store. -/
theorem Grown.perform (s : Store) (request : Request) :
    Grown s [request] (s.perform request).1 := by
  cases request with
  | ingest name source =>
      cases h : Outcome.ofSource s.options source with
      | ok outcome =>
          rw [perform_ingest_ok h]
          constructor
          · rfl
          · simp [add, Request.records_of_ok h]
          · simp [add, Request.outcome?, h, Outcome.diagnostics]
          · simp [add, Request.outcome?, h]
      | error f =>
          rw [perform_ingest_error h]
          constructor
          · rfl
          · simp [Request.records_of_error h]
          · simp [Request.outcome?, h]
          · simp [Request.outcome?, h]
  | push r => constructor <;> simp [Store.perform, push, Request.outcome?]
  | annotate =>
      have kept := Closeness.unmeasured_annotate s.records
      constructor <;> simp [Store.perform, annotate, Request.outcome?, kept]

theorem Grown.append {s middle last : Store} {requests more : List Request}
    (first : Grown s requests middle) (second : Grown middle more last) :
    Grown s (requests ++ more) last := by
  obtain ⟨options, records, diagnostics, sources⟩ := second
  rw [first.options] at options records diagnostics sources
  constructor
  · exact options
  · rw [records, first.records, List.flatMap_append, List.map_append, List.append_assoc]
  · rw [diagnostics, first.diagnostics, List.filterMap_append, List.flatMap_append,
      List.append_assoc]
  · rw [sources, first.sources, List.filterMap_append, List.length_append, Nat.add_assoc]

theorem Grown.performAll (s : Store) (requests : List Request) :
    Grown s requests (s.performAll requests).1 := by
  induction requests generalizing s with
  | nil => constructor <;> simp [Store.performAll]
  | cons request rest ih => exact (Grown.perform s request).append (ih (s.perform request).1)

theorem perform_answer (s : Store) (request : Request) :
    (s.perform request).2 = request.answer s.options := by
  cases request with
  | ingest name source =>
      cases h : Outcome.ofSource s.options source with
      | ok outcome =>
          have alone : Outcome.ofSource (empty s.options).options source = .ok outcome := h
          rw [perform_ingest_ok h, Request.answer, perform_ingest_ok alone]
      | error f =>
          have alone : Outcome.ofSource (empty s.options).options source = .error f := h
          rw [perform_ingest_error h, Request.answer, perform_ingest_error alone]
  | push r => rfl
  | annotate => rfl

theorem performAll_answers (s : Store) (requests : List Request) :
    (s.performAll requests).2 = requests.map (Request.answer s.options) := by
  induction requests generalizing s with
  | nil => rfl
  | cons request rest ih =>
      have same := (Grown.perform s request).options
      rw [Store.performAll, List.map_cons, ih, same, perform_answer]

theorem performAll_append (s : Store) (requests more : List Request) :
    (s.performAll (requests ++ more)).1 =
      ((s.performAll requests).1.performAll more).1 := by
  induction requests generalizing s with
  | nil => rfl
  | cons request rest ih => exact ih (s.perform request).1

/-- A request that is answered with a fault leaves the store as it was. -/
theorem perform_eq_of_error {s : Store} {request : Request} {f : Fault}
    (h : request.answer s.options = .error f) : s.perform request = (s, .error f) := by
  rw [← perform_answer] at h
  cases request with
  | ingest name source =>
      cases hread : Outcome.ofSource s.options source with
      | ok outcome =>
          rw [perform_ingest_ok hread] at h
          cases h
      | error g =>
          rw [perform_ingest_error hread] at h ⊢
          cases h
          rfl
  | push r => cases h
  | annotate => cases h

/-- Requests that are answered with a fault might as well not have been made. -/
theorem performAll_filter (s : Store) (requests : List Request) :
    (s.performAll requests).1 =
      (s.performAll (requests.filter fun request => (request.answer s.options).isOk)).1 := by
  induction requests generalizing s with
  | nil => rfl
  | cons request rest ih =>
      cases h : request.answer s.options with
      | ok added =>
          have same := (Grown.perform s request).options
          have kept : (request.answer s.options).isOk = true := by rw [h]; rfl
          rw [List.filter_cons_of_pos (by simpa using kept), performAll, performAll, ih, same]
      | error f =>
          have dropped : (request.answer s.options).isOk = false := by rw [h]; rfl
          rw [List.filter_cons_of_neg (by simp [dropped]), performAll, perform_eq_of_error h]
          exact ih s

/-- A store is what its requests brought, in their order. A request that is answered with a
fault leaves it exactly as it was, wherever in the history it stands, so the history is that
of the others. To measure last is to measure the records as they came: nothing that was
measured before shows. -/
theorem history (s : Store) (requests : List Request) :
    let last := (s.performAll requests).1
    Grown s requests last ∧
    (s.performAll requests).2 = requests.map (Request.answer s.options) ∧
    (∀ name source f, last.ingest name source = .error f →
      last.perform (.ingest name source) = (last, .error f)) ∧
    last = (s.performAll (requests.filter fun request => (request.answer s.options).isOk)).1 ∧
    (s.performAll (requests ++ [.annotate])).1.records =
      Closeness.annotate ((s.records ++ requests.flatMap (Request.records s.options)).map
        Record.unmeasured) := by
  intro last
  refine ⟨Grown.performAll s requests, performAll_answers s requests, ?_,
    performAll_filter s requests, ?_⟩
  · intro name source f h
    rw [perform, h]
  · rw [performAll_append]
    change Closeness.annotate last.records = _
    rw [← Closeness.annotate_unmeasured, (Grown.performAll s requests).records, List.map_append]

def loneRunLog : Source :=
  .ofText ("mem_allocator initialized!\nRunning YCSB workload\nRBT implementation treap\n" ++
    "running 2 threads\n[summary] throughput=1.5\n").toList

/-- A log that ends in the middle of its only run. -/
def unendedLog : Source :=
  .ofText "Inputs:\n".toList

theorem history_unendedLog :
    let strict := { Options.standard with strict := true }
    let requests := [.ingest "a.log".toList loneRunLog, .annotate]
    let loaded := ((empty strict).performAll requests).1
    loaded.records.map Record.closeToMax = [some 100] ∧
      loaded.ingest "b.log".toList unendedLog = .error (.unfinished 1 1) ∧
      loaded.perform (.ingest "b.log".toList unendedLog) = (loaded, .error (.unfinished 1 1)) := by
  intro strict requests loaded
  have lines : unendedLog.lines = [⟨1, "Inputs:".toList⟩] := by cbv
  have kept : loaded.options = strict := (Grown.performAll (empty strict) requests).options
  have refused : loaded.ingest "b.log".toList unendedLog = .error (.unfinished 1 1) := by
    rw [ingest, kept, Outcome.ofSource_of_pos (by decide), lines]
    rfl
  exact ⟨by decide +kernel, refused, (history (empty strict) requests).2.2.1 _ _ _ refused⟩

end Store
end RunLog

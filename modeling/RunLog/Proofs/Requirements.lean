import Mathlib.Tactic.SplitIfs
import RunLog.Proofs.Lookups
import RunLog.Run.Draft

/-!
# What a record asks of a draft

A record asks for a kind, a number of threads, a variant and a throughput, and one of
the micro benchmark for three numbers more. Each requirement is met, or what it asks for
is absent, or something is stated that is of no use, and never two of these. A draft is
complete exactly if all requirements are met, and otherwise it falls short of the
first one that is not (`Draft.decides_complete`).

Input parameters stand in for fields that are not set. The texts of all others are only
kept (`Draft.complete_withInputs`).
-/
namespace RunLog

structure Requirement where
  field : Text
  met : Prop
  absent : Prop
  /-- What is stated is of no use, and is reported as this text. -/
  useless : Text → Prop
  not_absent : met → ¬absent
  not_useless : ∀ {value}, met → ¬useless value
  apart : ∀ {value}, absent → ¬useless value
  unique : ∀ {value other}, useless value → useless other → value = other

namespace Requirement

/-- How a requirement falls short. -/
def Fails (q : Requirement) : Shortfall → Prop
  | .missing field => field = q.field ∧ q.absent
  | .badValue field value => field = q.field ∧ q.useless value

/-- The first of the requirements that is not met falls short. -/
inductive FirstFails : List Requirement → Shortfall → Prop
  | here {q : Requirement} {rest : List Requirement} {e : Shortfall} :
      q.Fails e → FirstFails (q :: rest) e
  | later {q : Requirement} {rest : List Requirement} {e : Shortfall} :
      q.met → FirstFails rest e → FirstFails (q :: rest) e

variable {q : Requirement} {rest : List Requirement} {e e' : Shortfall}

theorem not_fails (h : q.met) : ¬q.Fails e := by
  cases e with
  | missing field => exact fun fails => q.not_absent h fails.2
  | badValue field value => exact fun fails => q.not_useless h fails.2

theorem fails_unique (h : q.Fails e) (h' : q.Fails e') : e = e' := by
  cases e with
  | missing field =>
      cases e' with
      | missing field' => rw [h.1, h'.1]
      | badValue field' value => exact absurd h'.2 (q.apart h.2)
  | badValue field value =>
      cases e' with
      | missing field' => exact absurd h.2 (q.apart h'.2)
      | badValue field' value' => rw [h.1, h'.1, q.unique h.2 h'.2]

/-- A check that succeeds exactly if the requirements are met, and otherwise tells how the
first one of them falls short that is not. -/
structure Decides {α : Type} (check : Except Shortfall α) (requirements : List Requirement) :
    Prop where
  ok : (∃ a, check = .ok a) ↔ ∀ q ∈ requirements, q.met
  error : ∀ e, check = .error e ↔ FirstFails requirements e

namespace Decides
variable {α β : Type}

theorem nothing (a : α) : Decides (.ok a) [] := by
  refine ⟨⟨fun _ => List.forall_mem_nil _, fun _ => ⟨a, rfl⟩⟩, fun e => ⟨?_, ?_⟩⟩
  · intro h
    cases h
  · intro h
    cases h

/-- A requirement is one thing or the other, so the check of it need be sound only. -/
theorem single {check : Except Shortfall α} (met : ∀ a, check = .ok a → q.met)
    (fails : ∀ e, check = .error e → q.Fails e) : Decides check [q] := by
  cases check with
  | ok a =>
      have holds := met a rfl
      refine ⟨⟨fun _ => List.forall_mem_singleton.mpr holds, fun _ => ⟨a, rfl⟩⟩, fun e => ⟨?_, ?_⟩⟩
      · intro h
        cases h
      · rintro (first | ⟨-, ⟨⟩⟩)
        exact absurd first (not_fails holds)
  | error e =>
      have falls := fails e rfl
      refine ⟨⟨?_, fun all => ?_⟩, fun e' => ⟨?_, ?_⟩⟩
      · rintro ⟨a, ⟨⟩⟩
      · exact absurd falls (not_fails (List.forall_mem_singleton.mp all))
      · rintro ⟨⟩
        exact .here falls
      · rintro (first | ⟨-, ⟨⟩⟩)
        rw [fails_unique falls first]

/-- Checks one behind the other decide their requirements in this order. -/
theorem bind {first : Except Shortfall α} {next : α → Except Shortfall β}
    (h : Decides first [q]) (behind : ∀ a, first = .ok a → Decides (next a) rest) :
    Decides (first >>= next) (q :: rest) := by
  cases first with
  | ok a =>
      have met : q.met := List.forall_mem_singleton.mp (h.ok.mp ⟨a, rfl⟩)
      refine ⟨?_, fun e => ?_⟩
      · rw [List.forall_mem_cons]
        exact (behind a rfl).ok.trans ⟨fun later => ⟨met, later⟩, And.right⟩
      · refine ((behind a rfl).error e).trans ⟨.later met, ?_⟩
        rintro (first | ⟨-, later⟩)
        · exact absurd first (not_fails met)
        · exact later
  | error e =>
      have falls : FirstFails [q] e := (h.error e).mp rfl
      rcases falls with falls | ⟨-, ⟨⟩⟩
      refine ⟨⟨?_, fun all => ?_⟩, fun e' => ⟨?_, ?_⟩⟩
      · rintro ⟨b, ⟨⟩⟩
      · exact absurd falls (not_fails (all q List.mem_cons_self))
      · rintro ⟨⟩
        exact .here falls
      · rintro (first | ⟨met, -⟩)
        · rw [fails_unique falls first]
          rfl
        · exact absurd falls (not_fails met)

theorem map {check : Except Shortfall α} (h : Decides check rest) (f : α → β) :
    Decides (check >>= fun a => .ok (f a)) rest := by
  cases check with
  | ok a =>
      refine ⟨⟨fun _ => h.ok.mp ⟨a, rfl⟩, fun _ => ⟨f a, rfl⟩⟩, fun e => ⟨?_, fun fails => ?_⟩⟩
      · rintro ⟨⟩
      · cases (h.error e).mpr fails
  | error e =>
      refine ⟨⟨?_, fun all => ?_⟩, fun e' => ⟨?_, fun fails => ?_⟩⟩
      · rintro ⟨b, ⟨⟩⟩
      · obtain ⟨a, ⟨⟩⟩ := h.ok.mpr all
      · rintro ⟨⟩
        exact (h.error e).mp rfl
      · cases (h.error e').mpr fails
        rfl

end Decides

def present (field : Text) (stated : Prop) : Requirement where
  field := field
  met := stated
  absent := ¬stated
  useless _ := False
  not_absent := not_not_intro
  not_useless _ := not_false
  apart _ := not_false
  unique := False.elim

/-- The value of a field that has no other source. -/
def require {α : Type} (field : Text) (known : Option α) : Except Shortfall α :=
  match known with
  | none => .error (.missing field)
  | some a => .ok a

theorem require_ok {α : Type} {field : Text} {known : Option α} {a : α}
    (h : require field known = .ok a) : known = some a := by
  cases known with
  | none => cases h
  | some b =>
      cases h
      rfl

theorem decides_require {α : Type} (field : Text) (known : Option α) :
    Decides (require field known) [present field (known ≠ none)] := by
  cases known with
  | none =>
      refine .single (fun _ h => by cases h) fun e h => ?_
      cases h
      exact ⟨rfl, not_not_intro rfl⟩
  | some a => exact .single (fun _ _ => Option.some_ne_none a) fun _ h => by cases h

end Requirement

namespace Draft
open Requirement

variable (d : Draft)

section Numbers
variable (known : Option Nat) (limit : Nat) (key : Text)

/-- A number is set, or the text of an input parameter spells it and it is below the limit. -/
def StatesNumber (n : Nat) : Prop :=
  known = some n ∨ known = none ∧ ∃ raw, d.inputs.get? key = some raw ∧
    Decimal.readNatural? limit (Text.trim raw) = some n

/-- No number is set, and there is no input parameter in its place. -/
def LacksNumber : Prop :=
  known = none ∧ d.inputs.get? key = none

/-- No number is set, and the text of the input parameter spells none below the limit. -/
def GarblesNumber (raw : Text) : Prop :=
  known = none ∧ d.inputs.get? key = some raw ∧
    Decimal.readNatural? limit (Text.trim raw) = none

/-- A number that is set, or read from an input parameter, reported as `field` when it fails. -/
def number (field : Text) : Except Shortfall Nat :=
  match known with
  | some n => .ok n
  | none => d.inputNumber limit key field

variable {d known limit key} {n : Nat} {raw : Text}

theorem StatesNumber.unique {other : Nat} (h : d.StatesNumber known limit key n)
    (h' : d.StatesNumber known limit key other) : n = other := by
  rcases h with set | ⟨unset, raw, found, read⟩
  · rcases h' with set' | ⟨unset', -⟩
    · exact Option.some.inj (set.symm.trans set')
    · cases set.symm.trans unset'
  · rcases h' with set' | ⟨-, raw', found', read'⟩
    · cases unset.symm.trans set'
    · obtain rfl := Option.some.inj (found.symm.trans found')
      exact Option.some.inj (read.symm.trans read')

theorem StatesNumber.not_lacks (h : d.StatesNumber known limit key n) :
    ¬d.LacksNumber known key := by
  rintro ⟨unset, missing⟩
  rcases h with set | ⟨-, raw, found, -⟩
  · cases set.symm.trans unset
  · cases found.symm.trans missing

theorem StatesNumber.not_garbles (h : d.StatesNumber known limit key n) :
    ¬d.GarblesNumber known limit key raw := by
  rintro ⟨unset, found, unread⟩
  rcases h with set | ⟨-, raw', found', read⟩
  · cases set.symm.trans unset
  · obtain rfl := Option.some.inj (found.symm.trans found')
    cases read.symm.trans unread

theorem LacksNumber.not_garbles (h : d.LacksNumber known key) :
    ¬d.GarblesNumber known limit key raw :=
  fun garbled => Option.some_ne_none raw (garbled.2.1.symm.trans h.2)

theorem GarblesNumber.unique {other : Text} (h : d.GarblesNumber known limit key raw)
    (h' : d.GarblesNumber known limit key other) : raw = other :=
  Option.some.inj (h.2.1.symm.trans h'.2.1)

theorem number_ok {field : Text}
    (h : d.number known limit key field = .ok n) : d.StatesNumber known limit key n := by
  cases known with
  | some m =>
      cases h
      exact .inl rfl
  | none =>
      simp only [number, inputNumber] at h
      cases hfound : d.inputs.get? key with
      | none =>
          rw [hfound] at h
          cases h
      | some raw =>
          simp only [hfound] at h
          cases hread : Decimal.readNatural? limit (Text.trim raw) with
          | none =>
              rw [hread] at h
              cases h
          | some m =>
              rw [hread] at h
              cases h
              exact .inr ⟨rfl, raw, hfound, hread⟩

theorem number_error {field : Text} {e : Shortfall}
    (h : d.number known limit key field = .error e) :
    e = .missing field ∧ d.LacksNumber known key ∨
      ∃ raw, e = .badValue field raw ∧ d.GarblesNumber known limit key raw := by
  cases known with
  | some m => cases h
  | none =>
      simp only [number, inputNumber] at h
      cases hfound : d.inputs.get? key with
      | none =>
          rw [hfound] at h
          cases h
          exact .inl ⟨rfl, rfl, hfound⟩
      | some raw =>
          simp only [hfound] at h
          cases hread : Decimal.readNatural? limit (Text.trim raw) with
          | none =>
              rw [hread] at h
              cases h
              exact .inr ⟨raw, rfl, rfl, hfound, hread⟩
          | some m =>
              rw [hread] at h
              cases h

end Numbers

/-- A number that is set, or else stated under the name of the field. -/
def numberStated (known : Option Nat) (limit : Nat) (field : Text) : Requirement where
  field := field
  met := ∃ n, d.StatesNumber known limit field n
  absent := d.LacksNumber known field
  useless := d.GarblesNumber known limit field
  not_absent := fun ⟨_, h⟩ => h.not_lacks
  not_useless := fun ⟨_, h⟩ => h.not_garbles
  apart := LacksNumber.not_garbles
  unique := GarblesNumber.unique

/-- A number of threads that is not zero. -/
def threadsStated : Requirement where
  field := "threads".toList
  met := ∃ n, n ≠ 0 ∧ d.StatesNumber d.threads Decimal.wordLimit "num_threads".toList n
  absent := d.LacksNumber d.threads "num_threads".toList
  useless value := d.GarblesNumber d.threads Decimal.wordLimit "num_threads".toList value ∨
    d.StatesNumber d.threads Decimal.wordLimit "num_threads".toList 0 ∧ value = "0".toList
  not_absent := fun ⟨_, _, h⟩ => h.not_lacks
  not_useless := by
    rintro value ⟨n, nonzero, h⟩ (garbled | ⟨zero, -⟩)
    · exact h.not_garbles garbled
    · exact nonzero (h.unique zero)
  apart := by
    rintro value lacking (garbled | ⟨zero, -⟩)
    · exact lacking.not_garbles garbled
    · exact zero.not_lacks lacking
  unique := by
    rintro value other (h | ⟨zero, rfl⟩) (h' | ⟨zero', rfl⟩)
    · exact h.unique h'
    · exact absurd h zero'.not_garbles
    · exact absurd h' zero.not_garbles
    · rfl

/-- The throughput is set, or else the summary tells it as a number. -/
def StatesRate (x : Float) : Prop :=
  d.throughput = some x ∨
    d.throughput = none ∧ d.summary.get? "throughput".toList = some (.number x)

theorem StatesRate.unique {d : Draft} {x y : Float} (h : d.StatesRate x) (h' : d.StatesRate y) :
    x = y := by
  rcases h with set | ⟨unset, told⟩
  · rcases h' with set' | ⟨unset', -⟩
    · exact Option.some.inj (set.symm.trans set')
    · cases set.symm.trans unset'
  · rcases h' with set' | ⟨-, told'⟩
    · cases unset.symm.trans set'
    · cases told.symm.trans told'
      rfl

/-- A throughput that is finite and above zero. -/
def rateStated : Requirement where
  field := "throughput".toList
  met := ∃ x, d.StatesRate x ∧ x.isFinite = true ∧ 0 < x
  absent := d.throughput = none ∧ d.summary.get? "throughput".toList = none
  useless value :=
    (d.throughput = none ∧ d.summary.get? "throughput".toList = some (.text value)) ∨
      ∃ x, d.StatesRate x ∧ ¬(x.isFinite = true ∧ 0 < x) ∧ value = Decimal.plain x
  not_absent := by
    rintro ⟨x, set | ⟨-, told⟩, -⟩ ⟨unset, untold⟩
    · cases set.symm.trans unset
    · cases told.symm.trans untold
  not_useless := by
    rintro value ⟨x, stated, sound⟩ (⟨unset, text⟩ | ⟨y, stated', unsound, -⟩)
    · rcases stated with set | ⟨-, told⟩
      · cases set.symm.trans unset
      · cases told.symm.trans text
    · exact unsound (stated.unique stated' ▸ sound)
  apart := by
    rintro value ⟨unset, untold⟩ (⟨-, text⟩ | ⟨x, set | ⟨-, told⟩, -⟩)
    · cases text.symm.trans untold
    · cases set.symm.trans unset
    · cases told.symm.trans untold
  unique := by
    rintro value other (⟨unset, text⟩ | ⟨x, stated, -, rfl⟩)
      (⟨unset', text'⟩ | ⟨y, stated', -, rfl⟩)
    · cases text.symm.trans text'
      rfl
    · rcases stated' with set | ⟨-, told⟩
      · cases set.symm.trans unset
      · cases told.symm.trans text
    · rcases stated with set | ⟨-, told⟩
      · cases set.symm.trans unset'
      · cases told.symm.trans text'
    · rw [stated.unique stated']

theorem statedThreads_eq : d.statedThreads =
    d.number d.threads Decimal.wordLimit "num_threads".toList "threads".toList := rfl

theorem decides_threads : Decides d.completeThreads [d.threadsStated] := by
  refine .single (fun n h => ?_) (fun e h => ?_)
  · rw [completeThreads, statedThreads_eq] at h
    split at h
    · cases h
    · rename_i m stated
      split_ifs at h with nonzero
      cases h
      exact ⟨n, nonzero, number_ok stated⟩
  · rw [completeThreads, statedThreads_eq] at h
    split at h
    · rename_i e' failed
      cases h
      rcases number_error failed with ⟨rfl, lacking⟩ | ⟨raw, rfl, garbled⟩
      · exact ⟨rfl, lacking⟩
      · exact ⟨rfl, .inl garbled⟩
    · rename_i m stated
      split_ifs at h with zero
      cases h
      exact ⟨rfl, .inr ⟨zero ▸ number_ok stated, rfl⟩⟩

theorem decides_variant : Decides d.completeVariant
    [present "variant".toList (d.variant ≠ none ∨ d.inputs.get? "ds_name".toList ≠ none)] := by
  refine .single (fun v h => ?_) (fun e h => ?_)
  · by_contra unstated
    obtain ⟨unset, unnamed⟩ := not_or.mp unstated
    rw [completeVariant, not_not.mp unset] at h
    simp only [not_not.mp unnamed] at h
    cases h
  · unfold completeVariant at h
    split at h
    · cases h
    · rename_i unset
      split at h
      · rename_i unnamed
        cases h
        exact ⟨rfl, not_or.mpr ⟨not_not_intro unset, not_not_intro unnamed⟩⟩
      · split at h <;> cases h

theorem statedThroughput_ok {x : Float} (h : d.statedThroughput = .ok x) : d.StatesRate x := by
  unfold statedThroughput at h
  split at h
  · rename_i set
    cases h
    exact .inl set
  · rename_i unset
    split at h
    · rename_i told
      cases h
      exact .inr ⟨unset, told⟩
    · cases h
    · cases h

theorem decides_throughput : Decides d.completeThroughput [d.rateStated] := by
  refine .single (fun x h => ?_) (fun e h => ?_)
  · unfold completeThroughput at h
    split at h
    · cases h
    · rename_i y stated
      split_ifs at h with sound
      cases h
      exact ⟨x, d.statedThroughput_ok stated, sound⟩
  · unfold completeThroughput at h
    split at h
    · rename_i e' failed
      cases h
      unfold statedThroughput at failed
      split at failed
      · cases failed
      · rename_i unset
        split at failed
        · cases failed
        · rename_i raw text
          cases failed
          exact ⟨rfl, .inl ⟨unset, text⟩⟩
        · rename_i untold
          cases failed
          exact ⟨rfl, unset, untold⟩
    · rename_i y stated
      split_ifs at h with unsound
      cases h
      exact ⟨rfl, .inr ⟨y, d.statedThroughput_ok stated, unsound, rfl⟩⟩

theorem setOrInput_eq (known : Option Nat) (limit : Nat) (field : Text) :
    d.setOrInput known limit field = d.number known limit field field := rfl

theorem decides_setOrInput (known : Option Nat) (limit : Nat) (field : Text) :
    Decides (d.setOrInput known limit field) [d.numberStated known limit field] := by
  rw [setOrInput_eq]
  refine .single (fun n h => ⟨n, number_ok h⟩) (fun e h => ?_)
  rcases number_error h with ⟨rfl, lacking⟩ | ⟨raw, rfl, garbled⟩
  · exact ⟨rfl, lacking⟩
  · exact ⟨rfl, garbled⟩

/-- What is asked of a run of the micro benchmark besides. -/
def microRequirements : List Requirement :=
  [d.numberStated d.workloadMix Decimal.wordLimit "lookup_frac".toList,
    d.numberStated d.initialSize Decimal.sizeLimit "init_tree_size".toList,
    present "expected_final_size".toList (d.expectedFinalSize ≠ none)]

/-- What is asked of a draft, in the order of the checks. -/
def requirements : List Requirement :=
  present "bench".toList (d.kind ≠ none) :: d.threadsStated ::
    present "variant".toList (d.variant ≠ none ∨ d.inputs.get? "ds_name".toList ≠ none) ::
    d.rateStated :: if d.kind = some .micro then d.microRequirements else []

theorem completeDetails_micro : d.completeDetails .micro =
    d.setOrInput d.workloadMix Decimal.wordLimit "lookup_frac".toList >>= fun mix =>
      d.setOrInput d.initialSize Decimal.sizeLimit "init_tree_size".toList >>= fun size =>
        require "expected_final_size".toList d.expectedFinalSize >>= fun final =>
          .ok (.micro mix size final d.inputs) := by
  cases h : d.expectedFinalSize <;> simp only [completeDetails, h] <;> rfl

theorem complete_eq : d.complete =
    require "bench".toList d.kind >>= fun kind => d.completeThreads >>= fun threads =>
      d.completeVariant >>= fun variant => d.completeThroughput >>= fun throughput =>
        d.completeDetails kind >>= fun details => .ok
          { kind := kind
            variant := variant
            threads := threads
            throughput := throughput
            summary := d.summary.insert "throughput".toList (.number throughput)
            details := details
            closeToMax := none } := by
  cases h : d.kind <;> simp only [complete, h] <;> rfl

theorem decides_details (kind : Kind) : Decides (d.completeDetails kind)
    (if kind = .micro then d.microRequirements else []) := by
  cases kind with
  | micro =>
      rw [completeDetails_micro]
      exact (d.decides_setOrInput _ _ _).bind fun mix _ =>
        (d.decides_setOrInput _ _ _).bind fun size _ => (decides_require _ _).map _
  | _ => exact .nothing _

/-- The checks of a draft decide its requirements. -/
theorem decides_complete : Decides d.complete d.requirements := by
  rw [complete_eq]
  refine (decides_require _ _).bind fun kind hkind => ?_
  refine d.decides_threads.bind fun threads _ => ?_
  refine d.decides_variant.bind fun variant _ => ?_
  refine d.decides_throughput.bind fun throughput _ => ?_
  simp only [require_ok hkind, Option.some_inj]
  exact (d.decides_details kind).map _

/-- The input parameter stands in for a field that is not set. -/
inductive Consults (d : Draft) : Text → Prop
  | threads : d.threads = none → Consults d "num_threads".toList
  | structureName : d.variant = none → Consults d "ds_name".toList
  | synchronization : d.variant = none → Consults d "sync_type".toList
  | workloadMix : d.workloadMix = none → Consults d "lookup_frac".toList
  | initialSize : d.initialSize = none → Consults d "init_tree_size".toList

end Draft

/-- The details with other input parameters, if they hold any. -/
def Details.withInputs (inputs : Dictionary Text) : Details → Details
  | .workload file components => .workload file components
  | .micro mix size final _ => .micro mix size final inputs

def Record.withInputs (inputs : Dictionary Text) (r : Record) : Record :=
  { r with details := r.details.withInputs inputs }

namespace Draft

section Inputs
variable {d : Draft} {inputs : Dictionary Text}

theorem number_withInputs {known : Option Nat} {key : Text} (limit : Nat) (field : Text)
    (same : known = none → inputs.get? key = d.inputs.get? key) :
    ({ d with inputs := inputs } : Draft).number known limit key field =
      d.number known limit key field := by
  cases known with
  | some n => rfl
  | none => simp only [number, inputNumber, same rfl]

theorem completeVariant_withInputs
    (name : d.variant = none → inputs.get? "ds_name".toList = d.inputs.get? "ds_name".toList)
    (sync : d.variant = none →
      inputs.get? "sync_type".toList = d.inputs.get? "sync_type".toList) :
    ({ d with inputs := inputs } : Draft).completeVariant = d.completeVariant := by
  unfold completeVariant
  cases h : d.variant with
  | some v => rfl
  | none => simp only [name h, sync h]

theorem completeDetails_withInputs (kind : Kind)
    (mix : d.workloadMix = none →
      inputs.get? "lookup_frac".toList = d.inputs.get? "lookup_frac".toList)
    (size : d.initialSize = none →
      inputs.get? "init_tree_size".toList = d.inputs.get? "init_tree_size".toList) :
    ({ d with inputs := inputs } : Draft).completeDetails kind =
      (d.completeDetails kind).map (Details.withInputs inputs) := by
  cases kind with
  | micro =>
      have mixes := number_withInputs Decimal.wordLimit "lookup_frac".toList mix
      have sizes := number_withInputs Decimal.sizeLimit "init_tree_size".toList size
      rw [completeDetails_micro, completeDetails_micro]
      simp only [setOrInput_eq, mixes, sizes]
      cases d.number d.workloadMix Decimal.wordLimit "lookup_frac".toList "lookup_frac".toList with
      | error e => rfl
      | ok mix =>
          cases d.number d.initialSize Decimal.sizeLimit "init_tree_size".toList
              "init_tree_size".toList with
          | error e => rfl
          | ok size => cases d.expectedFinalSize <;> rfl
  | _ => rfl

end Inputs

/-- Drafts that pass the same checks, but for their details, make the same record, but for these. -/
theorem complete_of_checks {d e : Draft} {f : Details → Details} (kind : e.kind = d.kind)
    (threads : e.completeThreads = d.completeThreads)
    (variant : e.completeVariant = d.completeVariant)
    (throughput : e.completeThroughput = d.completeThroughput)
    (details : ∀ kind, e.completeDetails kind = (d.completeDetails kind).map f)
    (summary : ∀ x, e.summary.insert "throughput".toList (.number x) =
      d.summary.insert "throughput".toList (.number x)) :
    e.complete = d.complete.map fun r => { r with details := f r.details } := by
  rw [complete_eq, complete_eq, kind, threads, variant, throughput]
  simp only [details, summary]
  cases Requirement.require "bench".toList d.kind with
  | error e => rfl
  | ok kind =>
      cases d.completeThreads with
      | error e => rfl
      | ok threads =>
          cases d.completeVariant with
          | error e => rfl
          | ok variant =>
              cases d.completeThroughput with
              | error e => rfl
              | ok throughput =>
                  change (Except.map f (d.completeDetails kind) >>= fun details => _) =
                    Except.map _ (d.completeDetails kind >>= fun details => _)
                  cases d.completeDetails kind <;> rfl

/-- The texts of parameters that are not consulted do not matter; they are only kept. -/
theorem complete_withInputs {d : Draft} {inputs : Dictionary Text}
    (same : ∀ key, d.Consults key → inputs.get? key = d.inputs.get? key) :
    ({ d with inputs := inputs } : Draft).complete = d.complete.map (Record.withInputs inputs) := by
  have threads : ({ d with inputs := inputs } : Draft).completeThreads = d.completeThreads := by
    unfold completeThreads
    rw [statedThreads_eq, statedThreads_eq, number_withInputs _ _ fun h => same _ (.threads h)]
  exact complete_of_checks rfl threads
    (completeVariant_withInputs (same _ <| .structureName ·) (same _ <| .synchronization ·)) rfl
    (completeDetails_withInputs · (same _ <| .workloadMix ·) (same _ <| .initialSize ·))
    fun _ => rfl

theorem complete_summary {d : Draft} (h : d.throughput ≠ none) (metrics : Metrics)
    (value : Metric) :
    ({ d with summary := metrics.insert "throughput".toList value } : Draft).complete =
      ({ d with summary := metrics } : Draft).complete := by
  obtain ⟨x, hx⟩ := Option.ne_none_iff_exists'.mp h
  have throughput (summary : Metrics) :
      ({ d with summary := summary } : Draft).completeThroughput = d.completeThroughput := by
    simp only [completeThroughput, statedThroughput, hx]
  have details (kind : Kind) :
      ({ d with summary := metrics.insert "throughput".toList value } : Draft).completeDetails
        kind = (({ d with summary := metrics } : Draft).completeDetails kind).map id :=
    (congrFun Except.map_id _).symm
  have made := @complete_of_checks { d with summary := metrics }
    { d with summary := metrics.insert "throughput".toList value } id rfl rfl rfl
    ((throughput _).trans (throughput _).symm) details
    fun x => Dictionary.insert_insert metrics _ value (.number x)
  rw [made]
  cases ({ d with summary := metrics } : Draft).complete <;> rfl

end Draft
end RunLog

import RunLog.Closeness

/-!
# Spreads

A spread collects values under a label. Its five numbers are the least and the
greatest value and the three quartiles, which are interpolated between the two
sorted values around them: the quartile `k` of `n` values lies at position
`k · (n - 1) / 4`, counted from zero.
-/
namespace RunLog

structure FiveNumbers (α : Type) where
  min : α
  q1 : α
  median : α
  q3 : α
  max : α
  count : Nat
  deriving Repr

namespace FiveNumbers

variable {α : Type} [Inhabited α] [Add α] [Sub α] [Mul α]

/-- The point at `part` quarters of the way from one value to another. -/
def between (quarters : Nat → α) (a b : α) (part : Nat) : α :=
  a + (b - a) * quarters part

/-- The quartile `k` of sorted values. -/
def quartile (quarters : Nat → α) (sorted : List α) (k : Nat) : α :=
  let position := k * (sorted.length - 1)
  between quarters (sorted.getD (position / 4) default)
    (sorted.getD ((position + 3) / 4) default) (position % 4)

/-- The five numbers of values that are sorted by `le`; `quarters n` is `n / 4`. -/
def ofList? (le : α → α → Bool) (quarters : Nat → α) (values : List α) :
    Option (FiveNumbers α) :=
  match values.mergeSort le with
  | [] => none
  | first :: rest =>
      let sorted := first :: rest
      some
        { min := first
          q1 := quartile quarters sorted 1
          median := quartile quarters sorted 2
          q3 := quartile quarters sorted 3
          max := sorted.getLast (by simp [sorted])
          count := sorted.length }

end FiveNumbers

structure Spread where
  label : Text
  values : List Float

namespace Spread

/-- The five numbers of the values that are numbers. -/
def fiveNumbers? (s : Spread) : Option (FiveNumbers Float) :=
  FiveNumbers.ofList? Decimal.totalLE (fun n => n.toFloat / 4)
    (s.values.filter fun x => !x.isNaN)

/-- The key and the closeness of a run that takes part: it has both, and its variant's label
contains the filter. -/
def keyed? {κ : Type} (key : Record → Option κ) (filter : Option Text) (r : Record) :
    Option (κ × Float) :=
  match r.closeToMax with
  | none => none
  | some x =>
      if filter.all r.variant.labelContains then (key r).map fun k => (k, x) else none

/-- The closeness of the runs, one spread for each key in ascending order. -/
def ofRecords {κ : Type} [DecidableEq κ] [Ord κ] (key : Record → Option κ)
    (label : κ → Text) (filter : Option Text) (records : List Record) : List Spread :=
  (Groups.ofList Prod.fst (records.filterMap (keyed? key filter))).sorted.map
    fun (k, members) => ⟨label k, members.map Prod.snd⟩

end Spread

inductive Grouping where
  | variant
  | threads
  | workload
  deriving DecidableEq, Repr

/-- The spreads of a grouping; runs of workload benchmarks have no share of lookups. -/
def Grouping.spreads (g : Grouping) (filter : Option Text) (records : List Record) :
    List Spread :=
  match g with
  | .variant => Spread.ofRecords (fun r => some r.variant) Variant.label filter records
  | .threads => Spread.ofRecords (fun r => some r.threads) Decimal.natural filter records
  | .workload => Spread.ofRecords Record.workloadMix Decimal.natural filter records

end RunLog

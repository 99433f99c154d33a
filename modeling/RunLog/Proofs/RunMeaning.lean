import Mathlib.Data.List.TakeDrop
import RunLog.Proofs.MarkerReadings

/-!
# What one run means

A run is the line that begins it and the lines behind it that begin none. Its
meaning is read off the list of its markers, without a reader: the first marker
that is defective or ends the run decides, and of everything told up to there
the last word counts (`Draft.ToldBy`). Input parameters are told only in the
block behind `Inputs:`, which the first other marker closes. If no marker
decides, the run never ends. A run has one verdict at most (`Verdict.unique`).
-/
namespace RunLog
namespace Marker

/-- What the last of the markers tells. -/
def last {α : Type} (tells : Marker → Option α) (told : List Marker) : Option α :=
  told.reverse.findSome? tells

/-- What the last of the markers tells about a name. -/
def lastOf {α : Type} (tells : Marker → Option (Text × α)) (name : Text)
    (told : List Marker) : Option α :=
  last (fun m => (tells m).bind fun entry => if name = entry.1 then some entry.2 else none) told

/-- The input parameters at the front of a run that opens with them. -/
def block (opening : Marker) (told : List Marker) : List Marker :=
  if opening = .inputsStart then told.takeWhile fun m => m.parameter?.isSome else []

/-- Whether the block of input parameters is still open behind the markers of a run. -/
def inBlock (opening : Marker) (told : List Marker) : Bool :=
  opening = .inputsStart && told.all fun m => m.parameter?.isSome

/-- Whether a marker decides what becomes of its run. -/
def decides (m : Marker) : Bool :=
  m.defect?.isSome || m.endsRun

@[simp] theorem last_concat {α : Type} (tells : Marker → Option α) (told : List Marker)
    (m : Marker) : last tells (told ++ [m]) = (tells m).or (last tells told) := by
  simp only [last, List.reverse_append, List.reverse_singleton, List.singleton_append,
    List.findSome?_cons]
  cases tells m <;> rfl

@[simp] theorem lastOf_nil {α : Type} (tells : Marker → Option (Text × α)) (name : Text) :
    lastOf tells name [] = none := rfl

theorem lastOf_concat {α : Type} (tells : Marker → Option (Text × α)) (name : Text)
    (told : List Marker) (m : Marker) :
    lastOf tells name (told ++ [m]) =
      ((tells m).bind fun entry => if name = entry.1 then some entry.2 else none).or
        (lastOf tells name told) := by
  rw [lastOf, last_concat, lastOf]

theorem inBlock_concat (opening : Marker) (told : List Marker) (m : Marker) :
    inBlock opening (told ++ [m]) = (inBlock opening told && m.parameter?.isSome) := by
  simp [inBlock, Bool.and_assoc]

/-- A block that is still open takes a parameter; nothing else becomes part of it. -/
theorem block_concat (opening : Marker) (told : List Marker) (m : Marker) :
    block opening (told ++ [m]) =
      if inBlock opening told && m.parameter?.isSome then block opening told ++ [m]
      else block opening told := by
  by_cases ho : opening = .inputsStart
  · simp only [block, inBlock, ho, if_true, decide_true, Bool.true_and]
    induction told with
    | nil =>
        simp only [List.nil_append, List.all_nil, Bool.true_and, List.takeWhile_cons,
          List.takeWhile_nil]
    | cons first rest ih =>
        cases hf : first.parameter?.isSome with
        | false => simp [hf]
        | true =>
            simp only [List.cons_append, List.takeWhile_cons, List.all_cons, hf, if_true,
              Bool.true_and, ih]
            split_ifs <;> rfl
  · simp [block, inBlock, ho]

end Marker

namespace Draft

/-- The draft holds the last word of the markers of a run on each field. -/
structure ToldBy (d : Draft) (opening : Marker) (told : List Marker) : Prop where
  kind : d.kind = (Marker.last Marker.kind? told).or
    (if opening = .inputsStart then some .micro else none)
  variant : d.variant = Marker.last Marker.variant? told
  threads : d.threads = Marker.last Marker.threads? told
  throughput : d.throughput = Marker.last Marker.throughput? told
  summary : d.summary = (Marker.last Marker.summary? told).getD ∅
  schemaFile : d.schemaFile = Marker.last Marker.schemaFile? told
  components : ∀ name, d.components.get? name = Marker.lastOf Marker.component? name told
  workloadMix : d.workloadMix = none
  initialSize : d.initialSize = none
  expectedFinalSize : d.expectedFinalSize = Marker.last Marker.finalSize? told
  inputs : ∀ key, d.inputs.get? key =
    Marker.lastOf Marker.parameter? key (Marker.block opening told)

variable {d e : Draft} {opening m : Marker} {told : List Marker}

theorem ToldBy.unique (hd : d.ToldBy opening told) (he : e.ToldBy opening told) : d = e := by
  have components : d.components = e.components :=
    Dictionary.ext_get? fun name => (hd.components name).trans (he.components name).symm
  have inputs : d.inputs = e.inputs :=
    Dictionary.ext_get? fun key => (hd.inputs key).trans (he.inputs key).symm
  cases d
  cases e
  simp only [Draft.mk.injEq]
  exact ⟨hd.kind.trans he.kind.symm, hd.variant.trans he.variant.symm,
    hd.threads.trans he.threads.symm, hd.throughput.trans he.throughput.symm,
    hd.summary.trans he.summary.symm, hd.schemaFile.trans he.schemaFile.symm, components,
    hd.workloadMix.trans he.workloadMix.symm, hd.initialSize.trans he.initialSize.symm,
    hd.expectedFinalSize.trans he.expectedFinalSize.symm, inputs⟩

theorem ToldBy.opened (opening : Marker) :
    ({ empty with kind := if opening = .inputsStart then some .micro else none } : Draft).ToldBy
      opening [] where
  kind := rfl
  variant := rfl
  threads := rfl
  throughput := rfl
  summary := rfl
  schemaFile := rfl
  components := fun _ => rfl
  workloadMix := rfl
  initialSize := rfl
  expectedFinalSize := rfl
  inputs := by
    intro key
    simp only [Marker.block, List.takeWhile_nil, ite_self, Marker.lastOf_nil]
    rfl

theorem ToldBy.noted {after : Draft} (h : d.ToldBy opening told) (hn : d.Noted m after)
    (hblock : (Marker.inBlock opening told && m.parameter?.isSome) = false) :
    after.ToldBy opening (told ++ [m]) where
  kind := by rw [hn.kind, h.kind, Marker.last_concat, Option.or_assoc]
  variant := by rw [hn.variant, h.variant, Marker.last_concat]
  threads := by rw [hn.threads, h.threads, Marker.last_concat]
  throughput := by rw [hn.throughput, h.throughput, Marker.last_concat]
  summary := by
    rw [hn.summary, h.summary, Marker.last_concat]
    cases m.summary? <;> rfl
  schemaFile := by rw [hn.schemaFile, h.schemaFile, Marker.last_concat]
  components := by
    intro name
    rw [hn.components, Marker.lastOf_concat, ← h.components]
    cases m.component? with
    | none => rfl
    | some c =>
        simp only [Option.map_some, Option.getD_some, Dictionary.get?_insert, Option.bind_some]
        by_cases hc : name = c.1 <;> simp [hc]
  workloadMix := hn.workloadMix.trans h.workloadMix
  initialSize := hn.initialSize.trans h.initialSize
  expectedFinalSize := by rw [hn.expectedFinalSize, h.expectedFinalSize, Marker.last_concat]
  inputs := by
    intro key
    rw [hn.inputs, Marker.block_concat, hblock, h.inputs]
    rfl

theorem ToldBy.withInput (h : d.ToldBy opening told) (hblock : Marker.inBlock opening told = true)
    (key value : Text) :
    (d.withInput key value).ToldBy opening (told ++ [.input key value]) where
  kind := h.kind.trans (by rw [Marker.last_concat]; rfl)
  variant := h.variant.trans (by rw [Marker.last_concat]; rfl)
  threads := h.threads.trans (by rw [Marker.last_concat]; rfl)
  throughput := h.throughput.trans (by rw [Marker.last_concat]; rfl)
  summary := h.summary.trans (by rw [Marker.last_concat]; rfl)
  schemaFile := h.schemaFile.trans (by rw [Marker.last_concat]; rfl)
  components := fun name => (h.components name).trans (by rw [Marker.lastOf_concat]; rfl)
  workloadMix := h.workloadMix
  initialSize := h.initialSize
  expectedFinalSize := h.expectedFinalSize.trans (by rw [Marker.last_concat]; rfl)
  inputs := by
    intro other
    have grows : Marker.block opening (told ++ [.input key value]) =
        Marker.block opening told ++ [.input key value] := by
      rw [Marker.block_concat, hblock]
      rfl
    rw [grows, Marker.lastOf_concat, ← h.inputs]
    simp only [Draft.withInput, Dictionary.get?_insert, Marker.parameter?, Option.bind_some]
    by_cases hk : other = key <;> simp [hk]

end Draft

/-- The markers of lines, each with the number of its line. -/
def Line.markers (limit : Nat) (lines : List Line) : List (Nat × Marker) :=
  lines.filterMap fun line => (line.marker? limit).map (line.number, ·)

theorem Line.markers_cons (limit : Nat) (line : Line) (rest : List Line) :
    markers limit (line :: rest) =
      ((line.marker? limit).map (line.number, ·)).toList ++ markers limit rest := by
  unfold markers
  cases h : line.marker? limit <;> simp [h]

/-- What becomes of a run that opened with a marker at line `started`, ended with line `last`,
and told the given markers in between. -/
inductive Verdict (opening : Marker) (started last : Nat) (markers : List (Nat × Marker)) :
    Finding → Prop
  | unfinished : (∀ marker ∈ markers, marker.2.decides = false) →
      Verdict opening started last markers (.fault (.unfinished started last))
  | defect {before after : List (Nat × Marker)} {number : Nat} {m : Marker} {e : Shortfall} :
      markers = before ++ (number, m) :: after →
      (∀ marker ∈ before, marker.2.decides = false) → m.defect? = some e →
      Verdict opening started last markers (.fault (.ofShortfall number e))
  /-- The first marker that decides ends the run, which is then put together from the last
  word on each field. -/
  | ended {before after : List (Nat × Marker)} {number : Nat} {m : Marker} {d : Draft} :
      markers = before ++ (number, m) :: after →
      (∀ marker ∈ before, marker.2.decides = false) → m.defect? = none → m.endsRun = true →
      d.ToldBy opening (before.map Prod.snd ++ [m]) →
      Verdict opening started last markers (Finding.ofDraft number d)

namespace Marker

theorem decides_of_defect {m : Marker} {e : Shortfall} (h : m.defect? = some e) :
    m.decides = true := by
  simp [decides, h]

theorem decides_of_endsRun {m : Marker} (h : m.endsRun = true) : m.decides = true := by
  simp [decides, h]

theorem decides_eq_false {m : Marker} (hd : m.defect? = none) (he : m.endsRun = false) :
    m.decides = false := by
  simp [decides, hd, he]

end Marker

namespace Verdict
variable {opening : Marker} {started last : Nat} {markers : List (Nat × Marker)}

/-- The marker that decides is found by looking through the markers in order. -/
theorem deciding {before after : List (Nat × Marker)} {event : Nat × Marker}
    (h : markers = before ++ event :: after)
    (hbefore : ∀ marker ∈ before, marker.2.decides = false) (hm : event.2.decides = true) :
    markers.span (fun marker => !marker.2.decides) = (before, event :: after) := by
  have quiet : ∀ marker ∈ before, (!marker.2.decides) = true := by
    intro marker hmem
    rw [hbefore marker hmem]
    rfl
  rw [List.span_eq_takeWhile_dropWhile, h, List.takeWhile_append_of_pos quiet,
    List.dropWhile_append_of_pos quiet]
  simp [hm]

theorem undecided {before after : List (Nat × Marker)} {event : Nat × Marker}
    (hnone : ∀ marker ∈ markers, marker.2.decides = false)
    (h : markers = before ++ event :: after) : event.2.decides = false :=
  hnone event (by simp [h])

/-- Where a marker decides, the verdict is about that marker. -/
theorem decided {before after : List (Nat × Marker)} {number : Nat} {m : Marker}
    {finding : Finding} (hv : Verdict opening started last markers finding)
    (h : markers = before ++ (number, m) :: after)
    (hbefore : ∀ marker ∈ before, marker.2.decides = false) (hm : m.decides = true) :
    (∃ e, m.defect? = some e ∧ finding = .fault (.ofShortfall number e)) ∨
      (m.defect? = none ∧ ∃ d : Draft, d.ToldBy opening (before.map Prod.snd ++ [m]) ∧
        finding = Finding.ofDraft number d) := by
  have first := deciding h hbefore hm
  cases hv with
  | unfinished hnone => cases hm.symm.trans (undecided hnone h)
  | defect h' hbefore' hd =>
      have same := first.symm.trans (deciding h' hbefore' (Marker.decides_of_defect hd))
      cases same
      exact .inl ⟨_, hd, rfl⟩
  | ended h' hbefore' hd he told =>
      have same := first.symm.trans (deciding h' hbefore' (Marker.decides_of_endsRun he))
      cases same
      exact .inr ⟨hd, _, told, rfl⟩

/-- A run has one verdict at most. -/
theorem unique {a b : Finding} (ha : Verdict opening started last markers a)
    (hb : Verdict opening started last markers b) : a = b := by
  cases ha with
  | unfinished hnone =>
      cases hb with
      | unfinished => rfl
      | defect h _ hd =>
          cases (Marker.decides_of_defect hd).symm.trans (undecided hnone h)
      | ended h _ _ he =>
          cases (Marker.decides_of_endsRun he).symm.trans (undecided hnone h)
  | defect h hbefore hd =>
      rcases hb.decided h hbefore (Marker.decides_of_defect hd) with ⟨e, hd', rfl⟩ | ⟨hd', -⟩
      · rw [Option.some.inj (hd.symm.trans hd')]
      · cases hd.symm.trans hd'
  | ended h hbefore hd he told =>
      rcases hb.decided h hbefore (Marker.decides_of_endsRun he) with
        ⟨e, hd', -⟩ | ⟨-, d, told', rfl⟩
      · cases hd.symm.trans hd'
      · rw [told.unique told']

end Verdict

end RunLog

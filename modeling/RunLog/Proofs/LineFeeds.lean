import Mathlib
import RunLog.Proofs.DecimalTexts
import RunLog.Proofs.DraftHistory
import RunLog.Proofs.FileLoading
import RunLog.Proofs.RecordValidity
import RunLog.Proofs.WrittenTexts

/-!
# No line feed gets into a record

A line has no line feed in it, and what a marker tells is cut out of its line, so it
has none either: trimming, cutting and taking words only leave characters out. A
signature is put together and normalized on the way, which adds brackets and letters,
and a number may become the name of a component, which is written in digits, a point,
a sign or the letters of a word. So no text of a draft has a line feed in it, whatever
markers it was put together from (`Draft.Told.feedless`), and no text of a record.
-/
namespace RunLog

section Parts

variable {t part : Text} {mark : Char}

theorem Text.word?_subset {n : Nat} (h : Text.word? n t = some part) : part ⊆ t := by
  induction n generalizing t with
  | zero =>
      rw [Text.word?] at h
      split at h
      · cases h
      · cases h
        exact ((List.takeWhile_sublist _).trans (List.dropWhile_sublist _)).subset
  | succ n ih =>
      rw [Text.word?] at h
      exact List.Subset.trans (ih h)
        ((List.dropWhile_sublist _).trans (List.dropWhile_sublist _)).subset

theorem Text.after?_suffix {opening : Text} (h : Text.after? opening t = some part) :
    part <:+ t := by
  induction opening generalizing t with
  | nil =>
      cases h
      exact List.suffix_rfl
  | cons o opening ih =>
      cases t with
      | nil => cases h
      | cons c t =>
          rw [Text.after?] at h
          split_ifs at h
          exact (ih h).trans (List.suffix_cons c t)

theorem Text.afterFirst?_suffix {opening : Text} (h : Text.afterFirst? opening t = some part) :
    part <:+ t := by
  induction t with
  | nil => exact Text.after?_suffix h
  | cons c t ih =>
      rw [Text.afterFirst?] at h
      split at h
      · rename_i found
        cases h
        exact Text.after?_suffix found
      · exact (ih h).trans (List.suffix_cons c t)

theorem Text.subset_of_mem_pieces (h : part ∈ Text.pieces mark t) : part ⊆ t := by
  fun_induction Text.pieces mark t with
  | case1 t _ =>
      rw [List.mem_singleton.mp h]
      exact List.Subset.refl t
  | case2 t c rest found _ ih =>
      rcases List.mem_cons.mp h with rfl | later
      · exact (List.takeWhile_sublist _).subset
      · have behind : rest ⊆ t := fun x hx =>
          (List.dropWhile_sublist _).subset (found ▸ List.mem_cons_of_mem c hx)
        exact List.Subset.trans (ih later) behind

theorem Text.replace_subset (old new t : Text) : Text.replace old new t ⊆ new ++ t := by
  fun_induction Text.replace old new t with
  | case1 => simp
  | case2 => simp
  | case3 o old c rest found ih =>
      refine List.append_subset.mpr ⟨List.subset_append_left _ _, fun x hx => ?_⟩
      rcases List.mem_append.mp (ih hx) with hnew | hrest
      · exact List.mem_append_left _ hnew
      · exact List.mem_append_right _ (List.mem_cons_of_mem c (List.mem_of_mem_drop hrest))
  | case4 o old c rest found ih =>
      refine List.cons_subset.mpr ⟨by simp, fun x hx => ?_⟩
      rcases List.mem_append.mp (ih hx) with hnew | hrest
      · exact List.mem_append_left _ hnew
      · exact List.mem_append_right _ (List.mem_cons_of_mem c hrest)

end Parts

namespace Source
open Utf8

theorem lineFeed_notMem_decode {octets : Octets} (h : lineFeed ∉ octets) :
    '\n' ∉ decode octets := by
  intro hmem
  obtain ⟨before, behind, split⟩ := List.append_of_mem hmem
  obtain ⟨first, second, rfl, -, -⟩ :=
    (decode_eq_append_iff (by decide : '\n'.toNat < 0x80)).mp split
  exact h (List.mem_append_right _ List.mem_cons_self)

theorem feedless_texts (s : Source) : ∀ t ∈ s.texts, '\n' ∉ t := by
  obtain ⟨rows, tail, h⟩ := exists_rows s.octets
  intro t ht
  rw [texts_rows s h] at ht
  rcases List.mem_append.mp ht with ended | unended
  · obtain ⟨row, hrow, rfl⟩ := List.mem_map.mp ended
    refine lineFeed_notMem_decode fun hmem => h.lines row hrow ?_
    rw [dropReturn] at hmem
    split_ifs at hmem
    · exact List.mem_of_mem_dropLast hmem
    · exact hmem
  · split_ifs at unended
    · cases unended
    · rw [List.mem_singleton.mp unended]
      exact lineFeed_notMem_decode h.tail

theorem feedless_lines (s : Source) : ∀ line ∈ s.lines, '\n' ∉ line.text := by
  intro line hline
  obtain ⟨⟨t, n⟩, ht, rfl⟩ := List.mem_map.mp hline
  exact s.feedless_texts t (List.fst_mem_of_mem_zipIdx ht)

end Source

namespace Marker

/-- The texts that a marker carries. -/
def payloads : Marker → List Text
  | .runStart | .inputsStart | .blank => []
  | .benchmark t | .schema t | .indexType t | .implementation t | .threads t | .component t
  | .summary t | .throughput t | .expectedSize t => [t]
  | .input key value => [key, value]

def Feedless (m : Marker) : Prop :=
  ∀ t ∈ m.payloads, '\n' ∉ t

theorem signature?_subset {line signature : Text} (h : signature? line = some signature) :
    signature ⊆ line := by
  unfold signature? at h
  split at h
  · cases h
  · rename_i rest found
    have trimmed : Text.trimEnd rest ⊆ line :=
      ((Text.trimEnd_sublist rest).trans (Text.afterFirst?_suffix found).sublist).subset
    simp only at h
    split_ifs at h
    · cases h
      exact List.Subset.trans (Text.trim_subset _)
        (List.Subset.trans (List.dropLast_subset _) trimmed)
    · cases h
      exact List.Subset.trans (Text.trim_subset _) trimmed

theorem input?_subset {line : Text} {m : Marker} (h : input? line = some m) :
    ∀ t ∈ m.payloads, t ⊆ line := by
  unfold input? at h
  split at h
  · cases h
  · rename_i key value found
    simp only at h
    split_ifs at h
    cases h
    rw [(Text.cut?_eq_some found).1]
    have front : Text.trim key ⊆ key ++ ':' :: value :=
      List.Subset.trans (Text.trim_subset key) (List.subset_append_left _ _)
    have back : Text.trim value ⊆ key ++ ':' :: value :=
      List.Subset.trans (Text.trim_subset value)
        (List.Subset.trans (List.subset_cons_self _ _) (List.subset_append_right _ _))
    simpa [payloads] using ⟨front, back⟩

theorem subset_of_map {line : Text} {m : Marker} {part? : Option Text} {tell : Text → Marker}
    (tells : ∀ t, (tell t).payloads = [t]) (cut : ∀ t, part? = some t → t ⊆ line)
    (h : part?.map tell = some m) : ∀ t ∈ m.payloads, t ⊆ line := by
  obtain ⟨part, found, rfl⟩ := Option.map_eq_some_iff.mp h
  simpa [tells] using cut part found

/-- What a marker carries is cut out of its line. -/
theorem ofTrimmed?_subset {line : Text} {m : Marker} (h : ofTrimmed? line = some m) :
    ∀ t ∈ m.payloads, t ⊆ line := by
  have word (n : Nat) : ∀ t, Text.word? n line = some t → t ⊆ line :=
    fun _ found => Text.word?_subset found
  have signature : ∀ t, signature? line = some t → t ⊆ line := fun _ => signature?_subset
  have rest {opening part : Text} (found : Text.after? opening line = some part) :
      Text.trim part ⊆ line :=
    List.Subset.trans (Text.trim_subset part) (Text.after?_suffix found).subset
  have either {c : Prop} [Decidable c] {first second : Option Marker}
      (hfirst : first = some m → ∀ t ∈ m.payloads, t ⊆ line)
      (hsecond : second = some m → ∀ t ∈ m.payloads, t ⊆ line)
      (h : (if c then first else second) = some m) : ∀ t ∈ m.payloads, t ⊆ line := by
    split_ifs at h
    · exact hfirst h
    · exact hsecond h
  have silent {m' : Marker} (nothing : m'.payloads = []) (h : some m' = some m) :
      ∀ t ∈ m.payloads, t ⊆ line := by
    cases h
    simp [nothing]
  revert h
  unfold ofTrimmed?
  refine either (silent rfl) <| either (silent rfl) <|
    either (subset_of_map (fun _ => rfl) (word 1)) <|
    either (subset_of_map (fun _ => rfl) (word 3)) <|
    either (subset_of_map (fun _ => rfl) signature) <|
    either (subset_of_map (fun _ => rfl) signature) <|
    either (subset_of_map (fun _ => rfl) (word 2)) <|
    either (subset_of_map (fun _ => rfl) (word 1)) fun h => ?_
  split at h
  · rename_i found
    cases h
    simpa [payloads] using rest found
  · split at h
    · rename_i found
      cases h
      simpa [payloads] using rest found
    · exact either (subset_of_map (fun _ => rfl) (word 1))
        (either (subset_of_map (fun _ => rfl) (word 4)) input?_subset) h

theorem feedless_read {line : Text} {m : Marker} (h : read line = some m) (hline : '\n' ∉ line) :
    m.Feedless := by
  unfold read at h
  simp only at h
  split_ifs at h
  · cases h
    simp [Feedless, payloads]
  · exact fun t ht hmem => hline (Text.trim_subset line (ofTrimmed?_subset h t ht hmem))

end Marker

/-- The keys of a dictionary and the texts of its values. -/
def Dictionary.texts {α : Type} (textsOf : α → List Text) (d : Dictionary α) : List Text :=
  d.entries.flatMap fun (key, value) => key :: textsOf value

theorem Dictionary.mem_texts_insert {α : Type} {textsOf : α → List Text} {d : Dictionary α}
    {key t : Text} {value : α} (h : t ∈ (d.insert key value).texts textsOf) :
    t = key ∨ t ∈ textsOf value ∨ t ∈ d.texts textsOf := by
  obtain ⟨entry, hentry, ht⟩ := List.mem_flatMap.mp h
  rcases Dictionary.mem_put hentry with rfl | kept
  · exact (List.mem_cons.mp ht).imp_right .inl
  · exact .inr (.inr (List.mem_flatMap.mpr ⟨entry, kept, ht⟩))

def Metric.texts : Metric → List Text
  | .number _ => []
  | .text t => [t]

/-- The keys of a summary and the values that are texts. -/
def Metrics.texts (metrics : Metrics) : List Text :=
  Dictionary.texts Metric.texts metrics

def Variant.texts (v : Variant) : List Text :=
  v.base :: v.subtype.toList

theorem Variant.feedless_read {signature : Text} (h : '\n' ∉ signature) :
    ∀ t ∈ (read signature).texts, '\n' ∉ t := by
  have trimmed {t : Text} (ht : '\n' ∉ t) : '\n' ∉ Text.trim t :=
    fun hmem => ht (Text.trim_subset t hmem)
  have normal : '\n' ∉ normalize (Text.trim signature) := by
    intro hmem
    rcases List.mem_append.mp (Text.replace_subset _ _ _ hmem) with new | old
    · revert new
      decide
    · rcases List.mem_append.mp (Text.replace_subset _ _ _ old) with new | old
      · revert new
        decide
      · exact trimmed h old
  unfold read
  simp only
  split
  · rename_i base rest found
    rw [(Text.cut?_eq_some found).1] at normal
    simp only [List.mem_append, List.mem_cons, not_or] at normal
    have inner : '\n' ∉ rest.filter (· != ')') := fun hmem =>
      normal.2.2 (List.mem_filter.mp hmem).1
    intro t ht
    rcases List.mem_cons.mp ht with rfl | ht
    · exact trimmed normal.1
    · simp only [make, Option.mem_toList] at ht
      obtain ⟨same, -⟩ := Option.filter_eq_some_iff.mp ht
      cases same
      exact trimmed inner
  · intro t ht
    rw [List.mem_singleton.mp ht]
    exact trimmed normal

theorem Kind.feedless_ofWord {word : Text} (h : '\n' ∉ word) : '\n' ∉ (ofWord word).name := by
  unfold ofWord
  split_ifs
  · decide
  · decide
  · decide
  · decide
  · exact h

theorem Metric.feedless_read {raw : Text} (h : '\n' ∉ raw) : ∀ t ∈ (read raw).texts, '\n' ∉ t := by
  unfold read
  split
  · simp [texts]
  · intro t ht
    rw [List.mem_singleton.mp ht]
    exact fun hmem => h (Text.trim_subset raw hmem)

theorem Metrics.feedless_readPair {piece : Text} {metrics more : Metrics} (hpiece : '\n' ∉ piece)
    (hmetrics : ∀ t ∈ metrics.texts, '\n' ∉ t) (h : readPair metrics piece = .ok more) :
    ∀ t ∈ more.texts, '\n' ∉ t := by
  have pair : '\n' ∉ Text.trim piece := fun hmem => hpiece (Text.trim_subset piece hmem)
  unfold readPair at h
  simp only at h
  split_ifs at h
  · cases h
    exact hmetrics
  · split at h
    · cases h
    · rename_i key value found
      cases h
      rw [(Text.cut?_eq_some found).1] at pair
      simp only [List.mem_append, List.mem_cons, not_or] at pair
      intro t ht
      rcases Dictionary.mem_texts_insert ht with rfl | htext | hkept
      · exact fun hmem => pair.1 (Text.trim_subset key hmem)
      · exact Metric.feedless_read pair.2.2 t htext
      · exact hmetrics t hkept

theorem Metrics.feedless_foldlM {pieces : List Text} {metrics all : Metrics}
    (hpieces : ∀ piece ∈ pieces, '\n' ∉ piece) (hmetrics : ∀ t ∈ metrics.texts, '\n' ∉ t)
    (h : pieces.foldlM readPair metrics = .ok all) : ∀ t ∈ all.texts, '\n' ∉ t := by
  induction pieces generalizing metrics with
  | nil =>
      cases h
      exact hmetrics
  | cons piece rest ih =>
      rw [List.forall_mem_cons] at hpieces
      rw [List.foldlM_cons] at h
      obtain ⟨more, read, h⟩ := bind_ok h
      exact ih hpieces.2 (feedless_readPair hpieces.1 hmetrics read) h

theorem Metrics.feedless_read {raw : Text} {metrics : Metrics} (hraw : '\n' ∉ raw)
    (h : Metrics.read raw = .ok metrics) : ∀ t ∈ metrics.texts, '\n' ∉ t :=
  feedless_foldlM (fun _ hpiece hmem => hraw (Text.subset_of_mem_pieces hpiece hmem))
    (by simp [texts, Dictionary.texts, Dictionary.empty]) h

namespace Decimal

theorem feedless_digits {digits : Text} (h : ∀ c ∈ digits, c.isDigit = true) : '\n' ∉ digits :=
  fun hmem => absurd (h '\n' hmem) (by decide)

@[simp] theorem feedless_natural (n : Nat) : '\n' ∉ natural n :=
  feedless_digits (natural_digits n)

theorem feedless_signed (x : Float) {unsigned : Text} (h : '\n' ∉ unsigned) :
    '\n' ∉ signed x unsigned := by
  unfold signed
  split_ifs
  · simpa using h
  · exact h

@[simp] theorem feedless_fixed (places : Nat) (x : Float) : '\n' ∉ fixed places x := by
  unfold fixed
  split_ifs
  · decide
  · exact feedless_signed x (by decide)
  · exact feedless_signed x (by simp [padZeros])

/-- What a layout writes by itself, beside the digits. -/
def Layout.marks (l : Layout) : List Text :=
  [l.wholeMark, l.powerPlus, l.notANumber, l.infinity, l.minusInfinity]

theorem Layout.feedless_write {l : Layout} (h : ∀ mark ∈ l.marks, '\n' ∉ mark) (x : Float) :
    '\n' ∉ l.write x := by
  simp only [marks, List.forall_mem_cons, ← List.forall_mem_ne'] at h
  obtain ⟨whole, plus, words⟩ := h
  rw [← List.forall_mem_ne']
  have digit (c : Char) (hc : c.isDigit = true) : c ≠ '\n' := by
    rintro rfl
    cases hc
  refine forall_mem_write digit (by decide) (by decide) (by decide) whole plus (.inr ?_)
  simpa using words

@[simp] theorem feedless_plain (x : Float) : '\n' ∉ plain x :=
  Layout.feedless_write (by decide) x

end Decimal

/-- A component has the name that its metrics give, in writing if that is a number. -/
theorem Metrics.feedless_label {metrics : Metrics} (h : ∀ t ∈ metrics.texts, '\n' ∉ t)
    {key : Text} {value : Metric} (hvalue : metrics.get? key = some value) :
    '\n' ∉ value.label := by
  cases value with
  | number x => exact Decimal.feedless_plain x
  | text t =>
      have entry := Dictionary.get?_eq_some_iff.mp hvalue
      exact h t (List.mem_flatMap.mpr ⟨_, entry, List.mem_cons_of_mem _ List.mem_cons_self⟩)

namespace Marker.Feedless

variable {m : Marker}

theorem kind (h : m.Feedless) {kind : Kind} (hkind : m.kind? = some kind) : '\n' ∉ kind.name := by
  cases m <;> cases hkind
  exact Kind.feedless_ofWord (h _ List.mem_cons_self)

theorem variant (h : m.Feedless) {v : Variant} (hv : m.variant? = some v) :
    ∀ t ∈ v.texts, '\n' ∉ t := by
  cases m <;> cases hv <;> exact Variant.feedless_read (h _ List.mem_cons_self)

theorem schemaFile (h : m.Feedless) {path : Text} (hpath : m.schemaFile? = some path) :
    '\n' ∉ path := by
  cases m <;> cases hpath
  exact h _ List.mem_cons_self

theorem summary (h : m.Feedless) {metrics : Metrics} (hmetrics : m.summary? = some metrics) :
    ∀ t ∈ metrics.texts, '\n' ∉ t := by
  cases m with
  | summary raw =>
      rw [summary?] at hmetrics
      cases read : Metrics.read raw with
      | error fault => simp [read, Except.toOption] at hmetrics
      | ok found =>
          have same : found = metrics := by simpa [read, Except.toOption] using hmetrics
          exact same ▸ Metrics.feedless_read (h raw List.mem_cons_self) read
  | _ => cases hmetrics

theorem component (h : m.Feedless) {name : Text} {metrics : Metrics}
    (hc : m.component? = some (name, metrics)) :
    '\n' ∉ name ∧ ∀ t ∈ metrics.texts, '\n' ∉ t := by
  obtain ⟨index, found, rfl⟩ := Marker.component?_index hc
  have feedless : ∀ t ∈ metrics.texts, '\n' ∉ t := by
    cases m with
    | component raw =>
        rw [component?] at hc
        split at hc
        · rename_i all read
          obtain ⟨_, -, same⟩ := Option.map_eq_some_iff.mp hc
          obtain rfl : all = metrics := congrArg Prod.snd same
          exact Metrics.feedless_read (h raw List.mem_cons_self) read
        · cases hc
    | _ => cases hc
  exact ⟨Metrics.feedless_label feedless found, feedless⟩

end Marker.Feedless

structure Draft.Feedless (d : Draft) : Prop where
  kind : ∀ kind, d.kind = some kind → '\n' ∉ kind.name
  variant : ∀ v, d.variant = some v → ∀ t ∈ v.texts, '\n' ∉ t
  summary : ∀ t ∈ Metrics.texts d.summary, '\n' ∉ t
  schemaFile : ∀ path, d.schemaFile = some path → '\n' ∉ path
  components : ∀ t ∈ d.components.texts Metrics.texts, '\n' ∉ t
  inputs : ∀ t ∈ d.inputs.texts fun value => [value], '\n' ∉ t

namespace Draft

theorem feedless_empty : Feedless empty := by
  constructor <;>
    simp [empty, Metrics.texts, Dictionary.texts, EmptyCollection.emptyCollection, Dictionary.empty]

theorem forall_or {α : Type} {told known : Option α} {p : α → Prop}
    (htold : ∀ a, told = some a → p a) (hknown : ∀ a, known = some a → p a) :
    ∀ a, told.or known = some a → p a := by
  intro a ha
  rcases Option.or_eq_some_iff.mp ha with h | ⟨-, h⟩
  · exact htold a h
  · exact hknown a h

theorem Feedless.withInput {d : Draft} (h : d.Feedless) {key value : Text}
    (hkey : '\n' ∉ key) (hvalue : '\n' ∉ value) : (d.withInput key value).Feedless := by
  refine { h with inputs := fun t ht => ?_ }
  rcases Dictionary.mem_texts_insert ht with rfl | htext | hkept
  · exact hkey
  · rw [List.mem_singleton.mp htext]
    exact hvalue
  · exact h.inputs t hkept

theorem Feedless.note {d after : Draft} {m : Marker} (h : d.Feedless) (hm : m.Feedless)
    (hnote : d.note m = .ok after) : after.Feedless := by
  obtain ⟨-, noted⟩ := note_ok hnote
  constructor
  · rw [noted.kind]
    exact forall_or (fun _ => hm.kind) h.kind
  · rw [noted.variant]
    exact forall_or (fun _ => hm.variant) h.variant
  · rw [noted.summary]
    cases told : m.summary? with
    | none => exact h.summary
    | some metrics => exact hm.summary told
  · rw [noted.schemaFile]
    exact forall_or (fun _ => hm.schemaFile) h.schemaFile
  · rw [noted.components]
    cases told : m.component? with
    | none => exact h.components
    | some c =>
        obtain ⟨name, metrics⟩ := hm.component told
        intro t ht
        rcases Dictionary.mem_texts_insert ht with rfl | htext | hkept
        · exact name
        · exact metrics t htext
        · exact h.components t hkept
  · rw [noted.inputs]
    exact h.inputs

/-- Drafts that are told by markers without line feeds have none. -/
theorem Told.feedless {d : Draft} (h : d.Told Marker.Feedless) : d.Feedless := by
  induction h with
  | empty => exact feedless_empty
  | micro =>
      refine { feedless_empty with kind := fun kind hkind => ?_ }
      cases hkind
      decide
  | input _ hm ih =>
      exact ih.withInput (hm _ List.mem_cons_self) (hm _ (List.mem_cons_of_mem _ List.mem_cons_self))
  | note _ hm hnote ih => exact ih.note hm hnote

theorem Feedless.input {d : Draft} (h : d.Feedless) {key value : Text}
    (hvalue : d.inputs.get? key = some value) : '\n' ∉ value :=
  h.inputs value (List.mem_flatMap.mpr ⟨_, Dictionary.get?_eq_some_iff.mp hvalue,
    List.mem_cons_of_mem _ List.mem_cons_self⟩)

theorem Feedless.completeVariant {d : Draft} (h : d.Feedless) {v : Variant}
    (hv : d.completeVariant = .ok v) : ∀ t ∈ v.texts, '\n' ∉ t := by
  unfold Draft.completeVariant at hv
  split at hv
  · rename_i known
    cases hv
    exact h.variant _ known
  · split at hv
    · cases hv
    · rename_i name hname
      split at hv
      · cases hv
        exact Variant.feedless_read (h.input hname)
      · rename_i sync hsync
        cases hv
        refine Variant.feedless_read ?_
        simp [h.input hname, h.input hsync]

end Draft

def Details.texts : Details → List Text
  | .workload schemaFile components => schemaFile.toList ++ components.texts Metrics.texts
  | .micro _ _ _ inputs => inputs.texts fun value => [value]

/-- All texts of a record: the name of its kind, the parts of its variant, the keys and texts
of its summary and its components, their names, its schema file and its parameters. -/
def Record.texts (r : Record) : List Text :=
  r.kind.name :: (r.variant.texts ++ Metrics.texts r.summary ++ r.details.texts)

def Record.Feedless (r : Record) : Prop :=
  ∀ t ∈ r.texts, '\n' ∉ t

theorem Draft.Feedless.complete {d : Draft} (h : d.Feedless) {r : Record}
    (hr : d.complete = .ok r) : r.Feedless := by
  have completes := complete_ok hr
  have summary : ∀ t ∈ Metrics.texts r.summary, '\n' ∉ t := by
    rw [completes.summary]
    intro t ht
    rcases Dictionary.mem_texts_insert ht with rfl | htext | hkept
    · decide
    · cases htext
    · exact h.summary t hkept
  have details : ∀ t ∈ r.details.texts, '\n' ∉ t := by
    rcases completeDetails_ok completes.details with ⟨-, hd⟩ | ⟨-, mix, size, final, hd⟩
    · rw [hd]
      intro t ht
      rcases List.mem_append.mp ht with hfile | hcomponents
      · exact h.schemaFile t (Option.mem_toList.mp hfile)
      · exact h.components t hcomponents
    · rw [hd]
      exact h.inputs
  intro t ht
  simp only [Record.texts, List.mem_cons, List.mem_append] at ht
  rcases ht with rfl | (hvariant | hsummary) | hdetails
  · exact h.kind _ completes.kind
  · exact h.completeVariant completes.variant t hvariant
  · exact summary t hsummary
  · exact details t hdetails

/-- No text of a record that was read from a source has a line feed in it. -/
theorem Record.Parsed.feedless {r : Record} (h : r.Parsed) : r.Feedless := by
  refine h.of_told (p := Feedless) (fun source limit line hline m hm => ?_) Iff.rfl
    fun told complete => told.feedless.complete complete
  rw [Line.marker?] at hm
  split_ifs at hm
  exact Marker.feedless_read hm (source.feedless_lines line hline)

end RunLog

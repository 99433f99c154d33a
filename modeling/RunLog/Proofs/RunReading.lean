import RunLog.Proofs.RunIsolation
import RunLog.Proofs.RunMeaning

/-!
# A reader finds the meaning of a run

A reader that collects a run knows at each line what the markers so far tell
(`Collects`). The marker that decides gives the verdict, and those after it fall
on an idle reader. So a reader finds exactly one thing in a run, and that is its
verdict.
-/
namespace RunLog
namespace Reader

structure Collects (reader : Reader) (opening : Marker) (started : Nat) (told : List Marker) :
    Prop where
  isOpen : reader.phase ≠ none
  started : reader.started = started
  draft : reader.draft.ToldBy opening told
  inInputs : reader.inInputs = Marker.inBlock opening told

variable {limit started : Nat} {reader taken : Reader} {opening m : Marker} {e : Shortfall}
  {told : List Marker}

theorem take_defect (reader : Reader) (h : m.defect? = some e) :
    reader.take m = .error e := by
  have field : reader.takeField m = .error e := by
    rw [takeField, Draft.note_defect reader.draft h]
    rfl
  unfold take
  split_ifs
  · cases m with
    | input | blank => simp [Marker.defect?] at h
    | _ => exact field
  · exact field

/-- Outside the block a marker is noted. A marker that closes the block is noted, too. -/
theorem Collects.takeField (h : reader.Collects opening started told) (hd : m.defect? = none)
    (hblock : (Marker.inBlock opening told && m.parameter?.isSome) = false) :
    ∃ taken, reader.takeField m = .ok taken ∧ taken.Collects opening started (told ++ [m]) := by
  obtain ⟨after, hn, noted⟩ := Draft.note_noted reader.draft hd
  rw [Reader.takeField, hn]
  refine ⟨_, rfl, ?_, h.started, h.draft.noted noted hblock, ?_⟩
  · simp only [phaseAfter]
    split
    · simp
    · exact h.isOpen
  · rw [Marker.inBlock_concat, hblock]

theorem Collects.take (h : reader.Collects opening started told) (hd : m.defect? = none) :
    ∃ taken, reader.take m = .ok taken ∧ taken.Collects opening started (told ++ [m]) := by
  have hin := h.inInputs
  unfold Reader.take
  cases hb : Marker.inBlock opening told with
  | false =>
      rw [hb] at hin
      simp only [hin, Bool.false_eq_true, if_false]
      exact h.takeField hd (by rw [hb]; rfl)
  | true =>
      rw [hb] at hin
      simp only [hin, if_true]
      have closing : m.parameter? = none →
          (Marker.inBlock opening told && m.parameter?.isSome) = false := by
        intro hm
        rw [hm]
        exact Bool.and_false _
      cases m with
      | input key value =>
          refine ⟨_, rfl, h.isOpen, h.started, h.draft.withInput hb key value, ?_⟩
          rw [Marker.inBlock_concat, hb]
          rfl
      | blank =>
          obtain ⟨after, hn, noted⟩ := Draft.note_noted reader.draft hd
          cases hn
          refine ⟨_, rfl, h.isOpen, h.started, h.draft.noted noted (closing rfl), ?_⟩
          rw [Marker.inBlock_concat, closing rfl]
      | _ => exact h.takeField hd (closing rfl)

theorem Collects.refused (h : reader.Collects opening started told)
    (ht : reader.take m = .error e) : m.defect? = some e := by
  cases hd : m.defect? with
  | none =>
      obtain ⟨taken, hok, -⟩ := h.take hd
      cases hok.symm.trans ht
  | some e' =>
      cases (take_defect reader hd).symm.trans ht
      rfl

theorem Collects.accepted (h : reader.Collects opening started told)
    (ht : reader.take m = .ok taken) :
    m.defect? = none ∧ taken.Collects opening started (told ++ [m]) := by
  cases hd : m.defect? with
  | none =>
      obtain ⟨taken', hok, next⟩ := h.take hd
      cases hok.symm.trans ht
      exact ⟨rfl, next⟩
  | some e => cases (take_defect reader hd).symm.trans ht

theorem Collects.pass (h : reader.Collects opening started told) (line : Line) :
    (reader.pass line).Collects opening started told :=
  ⟨h.isOpen, h.started, h.draft, h.inInputs⟩

/-- From a reader that collects a run, the lines that follow bring to light its verdict, and
nothing else. -/
theorem Collects.harvest {body : List Line} (done : List (Nat × Marker))
    (h : reader.Collects opening started (done.map Prod.snd))
    (hdone : ∀ marker ∈ done, marker.2.decides = false)
    (hbody : ∀ line ∈ body, line.beginsRun limit = false) :
    ∃ finding, reader.harvest limit body = [finding] ∧
      Verdict opening started ((body.map Line.number).getLastD reader.lastLine)
        (done ++ Line.markers limit body) finding := by
  -- `done` are the markers behind the reader, which it keeps and which decide nothing
  induction body generalizing reader done with
  | nil =>
      obtain ⟨phase, hp⟩ := Option.ne_none_iff_exists'.mp h.isOpen
      refine ⟨.fault (.unfinished started reader.lastLine), ?_, .unfinished ?_⟩
      · simp [leftOver_eq, unfinished?, hp, h.started]
      · simpa [Line.markers] using hdone
  | cons line rest ih =>
      have hrest : ∀ l ∈ rest, l.beginsRun limit = false :=
        fun l hl => hbody l (List.mem_cons_of_mem _ hl)
      have hline := hbody line (List.mem_cons_self ..)
      have move := step_move limit reader line
      rw [harvest_cons, List.map_cons, List.getLastD_cons, Line.markers_cons]
      generalize reader.step limit line = s at move ⊢
      cases move with
      | passed hm =>
          rw [hm]
          exact ih done (h.pass line) hdone hrest
      | begun hm hs => simp [Line.beginsRun, hm, hs] at hline
      | outside _ _ hp => exact absurd hp h.isOpen
      | @dropped m e hm _ _ ht =>
          have hd := (h.pass line).refused ht
          refine ⟨.fault (.ofShortfall line.number e), ?_, ?_⟩
          · rw [harvest_idle (reset_phase _) hrest]
            rfl
          · rw [hm]
            exact .defect rfl hdone hd
      | @ended m taken hm _ _ ht he =>
          obtain ⟨hd, next⟩ := (h.pass line).accepted ht
          refine ⟨Finding.ofDraft line.number taken.draft, ?_, ?_⟩
          · rw [harvest_idle (reset_phase _) hrest]
            rfl
          · rw [hm]
            exact .ended rfl hdone hd he next.draft
      | @collected m taken hm _ _ ht he =>
          obtain ⟨hd, next⟩ := (h.pass line).accepted ht
          have quiet : ∀ marker ∈ done ++ [(line.number, m)], marker.2.decides = false :=
            List.forall_mem_append.mpr
              ⟨hdone, List.forall_mem_singleton.mpr (Marker.decides_eq_false hd he)⟩
          have later := ih (done ++ [(line.number, m)]) (by simpa using next) quiet hrest
          rw [(take_ok ht).2.1, List.append_assoc] at later
          rw [hm]
          exact later

end Reader

/-- A run means what its markers say: the reader finds exactly one thing in it, and that is
its verdict. -/
theorem run_meaning {limit : Nat} {first : Line} {body : List Line} {opening : Marker}
    (hfirst : first.marker? limit = some opening) (hopening : opening.startsRun = true)
    (hbody : ∀ line ∈ body, line.beginsRun limit = false) :
    ∃ finding, Reader.start.harvest limit (first :: body) = [finding] ∧
      ∀ other, Verdict opening first.number ((body.map Line.number).getLastD first.number)
        (Line.markers limit body) other ↔ other = finding := by
  have opened : ((Reader.start.pass first).openRun first.number opening).Collects opening
      first.number [] := by
    refine ⟨by simp [Reader.openRun], rfl, Draft.ToldBy.opened opening, ?_⟩
    simp [Reader.openRun, Marker.inBlock]
  obtain ⟨finding, hfound, verdict⟩ := Reader.Collects.harvest [] opened (by simp) hbody
  refine ⟨finding, ?_, fun other => ⟨fun h => h.unique verdict, ?_⟩⟩
  · rw [Reader.harvest_cons, Reader.step_eq, hfirst]
    simp only [Reader.mark, hopening, if_true]
    exact hfound
  · rintro rfl
    exact verdict

/-- A run whose block of input parameters is closed by a marker, and which ends without a
throughput. -/
theorem run_meaning_inputs :
    let first : Line := ⟨1, "Inputs:".toList⟩
    let body : List Line :=
      [⟨2, "  num_threads: 4".toList⟩, ⟨3, "RBT implementation treap".toList⟩,
        ⟨4, "num_threads: 16".toList⟩, ⟨5, "Expected size of MAP: 10".toList⟩,
        ⟨6, "running two threads".toList⟩]
    first.marker? 64 = some .inputsStart ∧ (∀ line ∈ body, line.beginsRun 64 = false) ∧
      Reader.start.harvest 64 (first :: body) =
        [.fault (.missing 5 "throughput".toList)] ∧
      ∀ finding, Verdict .inputsStart 1 6 (Line.markers 64 body) finding ↔
        finding = .fault (.missing 5 "throughput".toList) := by
  intro first body
  have hfirst : first.marker? 64 = some .inputsStart := by decide
  have hbody : ∀ line ∈ body, line.beginsRun 64 = false := by decide
  have told : Reader.start.harvest 64 (first :: body) =
      [.fault (.missing 5 "throughput".toList)] := by rfl
  obtain ⟨finding, hfound, verdict⟩ := run_meaning hfirst rfl hbody
  obtain rfl : finding = _ := (List.cons.inj (hfound.symm.trans told)).1
  exact ⟨hfirst, hbody, hfound, verdict⟩

end RunLog

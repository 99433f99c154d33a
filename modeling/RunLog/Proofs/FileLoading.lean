import RunLog.Command.Plan
import RunLog.Proofs.AsciiOctets
import RunLog.Proofs.LineCuts

/-!
# Decoding a file before or after it is cut into lines

A command decodes a file as a whole, and the text is then read like any other
source: spelled out again, cut into lines, and each line decoded. A source that
is read as it comes is cut into lines first. Both give the same lines, because
neither a line feed nor the carriage return before one can be part of another
character, also where a character is cut off at the end of a line or of the
file. What is decoded as a whole has as many octets on a line as the decoded
line has, so the limit on their length does not tell the two apart either.
-/
namespace RunLog
namespace Utf8

/-- The octets of the text that some octets are read as. -/
def recode (octets : Octets) : Octets :=
  encode (decode octets)

@[simp] theorem recode_nil : recode [] = [] := by
  rw [recode, decode_nil]
  rfl

@[simp] theorem decode_recode (octets : Octets) : decode (recode octets) = decode octets :=
  decode_encode (decode octets)

theorem recode_append_ascii {c : Char} (hc : c.toNat < 0x80)
    (spelled : String.utf8EncodeChar c = [UInt8.ofNat c.toNat]) (octets more : Octets) :
    recode (octets ++ UInt8.ofNat c.toNat :: more) =
      recode octets ++ UInt8.ofNat c.toNat :: recode more := by
  have cut : decode (octets ++ UInt8.ofNat c.toNat :: more) =
      decode octets ++ c :: decode more :=
    (decode_eq_append_iff hc).mpr ⟨octets, more, rfl, rfl, rfl⟩
  rw [recode, cut, encode_append, encode, encode, List.flatMap_cons, spelled]
  rfl

/-- Where recoded octets hold a character of ASCII, the octets themselves hold it, with as
much before and behind it. -/
theorem exists_of_recode_eq {c : Char} (hc : c.toNat < 0x80) {octets before after : Octets}
    (h : recode octets = before ++ UInt8.ofNat c.toNat :: after) :
    ∃ first rest, octets = first ++ UInt8.ofNat c.toNat :: rest ∧
      decode first = decode before ∧ decode rest = decode after := by
  have read : decode octets = decode before ++ c :: decode after := by
    rw [← decode_recode, h]
    exact (decode_eq_append_iff hc).mpr ⟨before, after, rfl, rfl, rfl⟩
  exact (decode_eq_append_iff hc).mp read

end Utf8

namespace Source
open Utf8

theorem recode_lineFeed (octets more : Octets) :
    recode (octets ++ lineFeed :: more) = recode octets ++ lineFeed :: recode more :=
  recode_append_ascii (by decide : '\n'.toNat < 0x80) (by decide) octets more

theorem recode_carriageReturn (octets : Octets) :
    recode (octets ++ [carriageReturn]) = recode octets ++ [carriageReturn] := by
  have cut := recode_append_ascii (by decide : '\r'.toNat < 0x80) (by decide) octets []
  rwa [recode_nil] at cut

theorem lineFeed_notMem_recode {octets : Octets} (h : lineFeed ∉ octets) :
    lineFeed ∉ recode octets := by
  intro hmem
  obtain ⟨before, after, hcut⟩ := List.append_of_mem hmem
  obtain ⟨first, rest, rfl, -⟩ :=
    exists_of_recode_eq (by decide : '\n'.toNat < 0x80) hcut
  exact h (by simp [lineFeed])

theorem getLast?_recode (octets : Octets) :
    (recode octets).getLast? = some carriageReturn ↔
      octets.getLast? = some carriageReturn := by
  simp only [List.getLast?_eq_some_iff]
  constructor
  · rintro ⟨before, hcut⟩
    obtain ⟨first, rest, rfl, -, hrest⟩ :=
      exists_of_recode_eq (by decide : '\r'.toNat < 0x80) hcut
    rw [decode_nil, decode_eq_nil_iff] at hrest
    exact ⟨first, by rw [hrest]; rfl⟩
  · rintro ⟨before, rfl⟩
    exact ⟨recode before, recode_carriageReturn before⟩

/-- A carriage return at the end of a line can be dropped before or after it is decoded. -/
theorem decode_dropReturn_recode (line : Octets) :
    decode (dropReturn (recode line)) = decode (dropReturn line) := by
  unfold dropReturn
  simp only [getLast?_recode]
  split_ifs with hreturn
  · obtain ⟨before, rfl⟩ := List.getLast?_eq_some_iff.mp hreturn
    rw [recode_carriageReturn, List.dropLast_concat, List.dropLast_concat, decode_recode]
  · exact decode_recode line

theorem Rows.recode {octets tail : Octets} {lines : List Octets} (h : Rows octets lines tail) :
    Rows (Utf8.recode octets) (lines.map Utf8.recode) (Utf8.recode tail) := by
  obtain ⟨rfl, hlines, htail⟩ := h
  refine ⟨?_, ?_, lineFeed_notMem_recode htail⟩
  · clear hlines
    induction lines with
    | nil => rfl
    | cons line rest ih =>
        simp only [List.flatMap_cons, List.append_assoc, List.cons_append, List.nil_append,
          recode_lineFeed, List.map_cons] at ih ⊢
        rw [ih]
  · intro line hline
    obtain ⟨original, hmem, rfl⟩ := List.mem_map.mp hline
    exact lineFeed_notMem_recode (hlines original hmem)

/-- Octets that are decoded as a whole fall into the same lines. -/
theorem lines_ofText_decode (octets : Octets) :
    (ofText (decode octets)).lines = (ofOctets octets).lines := by
  obtain ⟨lines, tail, h⟩ := exists_rows octets
  have empty : (recode tail).isEmpty = tail.isEmpty := by
    rw [Bool.eq_iff_iff, List.isEmpty_iff, List.isEmpty_iff, ← decode_eq_nil_iff, decode_recode,
      decode_eq_nil_iff]
  have ended : endedText ∘ recode = endedText := funext decode_dropReturn_recode
  refine lines_congr ?_
  rw [texts_rows (ofOctets octets) h, texts_rows (ofText (decode octets)) h.recode, List.map_map,
    ended, empty, decode_recode]
  rfl

end Source

theorem Outcome.ofSource_ofText_decode (options : Options) (octets : Octets) :
    ofSource options (.ofText (Utf8.decode octets)) = ofSource options (.ofOctets octets) :=
  ofSource_congr (Source.lines_ofText_decode octets) rfl options

namespace Store

theorem ingest_ofText_decode (s : Store) (name : Text) (octets : Octets) :
    s.ingest name (.ofText (Utf8.decode octets)) = s.ingest name (.ofOctets octets) := by
  rw [ingest, Outcome.ofSource_ofText_decode, ingest]

/-- A file that is decoded as a whole gives what its octets give when they are read as they
come: the same outcome or the same fault under all options, and the same store. -/
theorem loadFile_agrees (s : Store) (path : Text) (octets : Octets) :
    (∀ options, Outcome.ofSource options (.ofText (Utf8.decode octets)) =
      Outcome.ofSource options (.ofOctets octets)) ∧
    s.ingest path (.ofText (Utf8.decode octets)) = s.ingest path (.ofOctets octets) ∧
    ∀ limit fetch, fetch path = .ok octets → octets.length ≤ limit →
      s.loadFile limit fetch path =
        ((s.ingest path (.ofOctets octets)).mapError (Failure.log path)).map Prod.fst := by
  refine ⟨fun options => Outcome.ofSource_ofText_decode options octets,
    ingest_ofText_decode s path octets, fun limit fetch hfetch hsize => ?_⟩
  simp only [loadFile, hfetch, Nat.not_lt.mpr hsize, if_false, ingest_ofText_decode]
  cases s.ingest path (.ofOctets octets) <;> rfl

/-- A log in which a character is cut off at the end of a line, and another one at its end. -/
def cutOffLog : Octets :=
  Utf8.encode "Inputs:\r\nds_name: ".toList ++ [0xE2, 0x82, 0x0D, 0x0A, 0xF0, 0x9F]

theorem loadFile_agrees_cutOffLog :
    cutOffLog.length ≤ 64 ∧
      (empty .standard).loadFile 64 (fun _ => .ok cutOffLog) "a.log".toList =
        .ok ⟨.standard, [], [⟨"a.log".toList, .unfinished 1 3⟩], 1⟩ := by
  have size : cutOffLog.length ≤ 64 := by decide
  have lines : (Source.ofOctets cutOffLog).lines =
      [⟨1, "Inputs:".toList⟩, ⟨2, "ds_name: \uFFFD".toList⟩, ⟨3, "\uFFFD".toList⟩] := by cbv
  have read : (empty .standard).ingest "a.log".toList (.ofOctets cutOffLog) =
      .ok (⟨.standard, [], [⟨"a.log".toList, .unfinished 1 3⟩], 1⟩, 0) := by
    rw [ingest, Outcome.ofSource_of_pos (by decide), lines]
    rfl
  refine ⟨size, ?_⟩
  rw [(loadFile_agrees (empty .standard) "a.log".toList cutOffLog).2.2 64 _ rfl size, read]
  rfl

end Store

end RunLog

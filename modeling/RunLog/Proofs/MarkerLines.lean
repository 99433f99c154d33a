import Mathlib
import RunLog.Marker
import RunLog.Proofs.WrittenTexts

/-!
# Markers as lines

Every marker has a line that tells it, whatever line it was read from. Its payload
is of one of a few sorts: a word, a signature, a text without blanks around it, or a
parameter with a plain key (`Marker.sound_of_read`), and any payload of its sort reads
back from the line, with blanks around it (`Marker.Sound.read_line`). The exception is the
parameter `Inputs`, whose line opens the block of parameters instead.

Markers are told by their openings. No opening begins another, so a line has one
at most, and it does not matter in which order they are tried (`Marker.ofRules_perm`).
-/
namespace RunLog

namespace Text

theorem word?_blank_cons {c : Char} (hc : isBlank c = true) (t : Text) :
    word? 0 (c :: t) = word? 0 t := by
  rw [word?, word?, trimStart, List.dropWhile_cons_of_pos hc, trimStart]

theorem isWord_of_word? {n : ℕ} {t w : Text} (h : word? n t = some w) : IsWord w := by
  induction n generalizing t with
  | zero =>
      rw [word?] at h
      cases hs : trimStart t with
      | nil => simp [hs] at h
      | cons c rest =>
          simp only [hs, Option.some.injEq] at h
          have solid : isBlank c = false := by
            have first := List.head?_dropWhile_not isBlank t
            rw [← trimStart, hs] at first
            simpa using first
          subst h
          refine ⟨?_, fun d hd => ?_⟩
          · rw [List.takeWhile_cons_of_pos (by simp [solid])]
            exact List.cons_ne_nil _ _
          · simpa using List.mem_takeWhile_imp hd
  | succ n ih => exact ih h

/-- What is left of a text behind a front and a blank, without the blanks around it. -/
theorem exists_trim_behind {front t : Text} (hne : front ≠ []) (hfront : trim front = front)
    (ht : trim t = t) : ∃ rest, trim (front ++ ' ' :: t) = front ++ rest ∧ trim rest = t := by
  cases t with
  | nil => exact ⟨[], by rw [trim_append_blank rfl hfront, List.append_nil], rfl⟩
  | cons d t =>
      obtain ⟨c, front', rfl⟩ := List.exists_cons_of_ne_nil hne
      have first : isBlank c = false := (trim_eq_self_iff.mp hfront).1 c rfl
      refine ⟨' ' :: d :: t, ?_, by rw [trim_blank_cons rfl, ht]⟩
      have whole := trim_append_of_ne_nil (a := front' ++ [' ']) first ht (List.cons_ne_nil d t)
      simpa using whole

theorem startsWith_eq (opening t : Text) : startsWith opening t = (after? opening t).isSome := by
  induction opening generalizing t with
  | nil => rfl
  | cons o opening ih =>
      cases t with
      | nil => rfl
      | cons c t =>
          rw [after?]
          split_ifs with h
          · rw [← ih, h, startsWith, List.isPrefixOf_cons_cons_self, startsWith]
          · simp [startsWith, List.isPrefixOf_cons_cons, h]

theorem startsWith_iff {opening t : Text} : startsWith opening t = true ↔ opening <+: t :=
  List.isPrefixOf_iff_prefix

end Text

namespace Marker

def line : Marker → Text
  | .runStart => "mem_allocator initialized!".toList
  | .inputsStart => "Inputs:".toList
  | .benchmark word => "Running ".toList ++ word ++ " workload".toList
  | .schema path => "Reading schema file: ".toList ++ path
  | .indexType signature => "[ type: ".toList ++ signature ++ " ]".toList
  | .implementation signature => "RBT implementation ".toList ++ signature
  | .threads count => "running ".toList ++ count ++ " threads".toList
  | .component pairs => "Per-index stats: ".toList ++ pairs
  | .summary pairs => "[summary] ".toList ++ pairs
  | .input key value => key ++ ": ".toList ++ value
  | .throughput rate => "Throughput(Ops/usec): ".toList ++ rate
  | .expectedSize size => "Expected size of MAP: ".toList ++ size
  | .blank => []

/-- What the payload of a marker is like. -/
def Sound : Marker → Prop
  | .benchmark word => Text.IsWord word
  | .schema path => Text.IsWord path
  | .indexType signature => signature ≠ [] ∧ Text.trim signature = signature
  | .implementation signature => Text.IsWord signature
  | .threads count => Text.IsWord count
  | .component pairs => Text.trim pairs = pairs
  | .summary pairs => Text.trim pairs = pairs
  | .input key value => key ≠ [] ∧ key.all isKeyChar = true ∧ Text.trim value = value
  | .throughput rate => Text.IsWord rate
  | .expectedSize size => Text.IsWord size
  | .runStart => True
  | .inputsStart => True
  | .blank => True

structure Rule where
  opening : Text
  tells : Text → Option Marker

def rules : List Rule :=
  [⟨"mem_allocator initialized!".toList, fun _ => some .runStart⟩,
    ⟨"Inputs:".toList, fun _ => some .inputsStart⟩,
    ⟨"Running ".toList, fun line => (Text.word? 1 line).map .benchmark⟩,
    ⟨"Reading schema file:".toList, fun line => (Text.word? 3 line).map .schema⟩,
    ⟨"Initiating Map".toList, fun line => (signature? line).map .indexType⟩,
    ⟨"[ type: ".toList, fun line => (signature? line).map .indexType⟩,
    ⟨"RBT implementation".toList, fun line => (Text.word? 2 line).map .implementation⟩,
    ⟨"running ".toList, fun line => (Text.word? 1 line).map .threads⟩,
    ⟨"Per-index stats:".toList, fun line =>
      (Text.after? "Per-index stats:".toList line).map (.component <| Text.trim ·)⟩,
    ⟨"[summary]".toList, fun line =>
      (Text.after? "[summary]".toList line).map (.summary <| Text.trim ·)⟩,
    ⟨"Throughput(Ops/usec):".toList, fun line => (Text.word? 1 line).map .throughput⟩,
    ⟨"Expected size of MAP".toList, fun line => (Text.word? 4 line).map .expectedSize⟩,
    ⟨"Expected size of RBT".toList, fun line => (Text.word? 4 line).map .expectedSize⟩]

/-- The marker of a line by the first of the rules whose opening it has, or else a parameter. -/
def ofRules (rules : List Rule) (line : Text) : Option Marker :=
  match rules.find? fun rule => Text.startsWith rule.opening line with
  | some rule => rule.tells line
  | none => input? line

theorem ofRules_cons (rule : Rule) (rest : List Rule) (line : Text) :
    ofRules (rule :: rest) line =
      if Text.startsWith rule.opening line then rule.tells line else ofRules rest line := by
  rw [ofRules, List.find?_cons]
  cases Text.startsWith rule.opening line <;> rfl

theorem ofTrimmed?_eq (line : Text) : ofTrimmed? line = ofRules rules line := by
  unfold ofTrimmed? rules
  iterate 8
    rw [ofRules_cons]
    refine ite_congr rfl (fun _ => rfl) fun _ => ?_
  rw [ofRules_cons]
  dsimp only
  rw [Text.startsWith_eq "Per-index stats:".toList]
  cases Text.after? "Per-index stats:".toList line with
  | some rest => rfl
  | none =>
      rw [Option.isSome_none, if_neg Bool.false_ne_true, ofRules_cons]
      dsimp only
      rw [Text.startsWith_eq "[summary]".toList]
      cases Text.after? "[summary]".toList line with
      | some rest => rfl
      | none =>
          rw [Option.isSome_none, if_neg Bool.false_ne_true, ofRules_cons, ofRules_cons,
            ofRules_cons]
          refine ite_congr rfl (fun _ => rfl) fun _ => ?_
          cases Text.startsWith "Expected size of MAP".toList line <;> rfl

/-! ### Payloads -/

theorem sound_of_word {n : ℕ} {line : Text} (make : Text → Marker)
    (sound : ∀ w, Text.IsWord w → (make w).Sound) {m : Marker}
    (h : (Text.word? n line).map make = some m) : m.Sound := by
  obtain ⟨w, hw, rfl⟩ := Option.map_eq_some_iff.mp h
  exact sound w (Text.isWord_of_word? hw)

theorem sound_of_signature {line : Text} {m : Marker}
    (h : (signature? line).map .indexType = some m) : m.Sound := by
  obtain ⟨signature, hs, rfl⟩ := Option.map_eq_some_iff.mp h
  unfold signature? at hs
  split at hs
  · cases hs
  · dsimp only at hs
    split_ifs at hs with bracket solid solid
    all_goals
      obtain rfl := Option.some.inj hs
      exact ⟨fun empty => solid (by rw [empty]; rfl), Text.trim_trim _⟩

theorem sound_of_input {line : Text} {m : Marker} (h : input? line = some m) : m.Sound := by
  unfold input? at h
  split at h
  · cases h
  · dsimp only at h
    split_ifs at h with plain
    obtain rfl := Option.some.inj h
    rw [Bool.and_eq_true] at plain
    exact ⟨fun empty => by simp [empty] at plain, plain.2, Text.trim_trim _⟩

theorem sound_of_rules : ∀ rule ∈ rules, ∀ line m, rule.tells line = some m → m.Sound := by
  simp only [rules, List.forall_mem_cons]
  refine ⟨?_, ?_, ?_, ?_, ?_, ?_, ?_, ?_, ?_, ?_, ?_, ?_, ?_, List.forall_mem_nil _⟩
  · rintro line m ⟨⟩
    trivial
  · rintro line m ⟨⟩
    trivial
  · exact fun line m => sound_of_word .benchmark fun _ word => word
  · exact fun line m => sound_of_word .schema fun _ word => word
  · exact fun line m => sound_of_signature
  · exact fun line m => sound_of_signature
  · exact fun line m => sound_of_word .implementation fun _ word => word
  · exact fun line m => sound_of_word .threads fun _ word => word
  · intro line m h
    obtain ⟨rest, -, rfl⟩ := Option.map_eq_some_iff.mp h
    exact Text.trim_trim rest
  · intro line m h
    obtain ⟨rest, -, rfl⟩ := Option.map_eq_some_iff.mp h
    exact Text.trim_trim rest
  · exact fun line m => sound_of_word .throughput fun _ word => word
  · exact fun line m => sound_of_word .expectedSize fun _ word => word
  · exact fun line m => sound_of_word .expectedSize fun _ word => word

theorem sound_of_read {line : Text} {m : Marker} (h : read line = some m) : m.Sound := by
  unfold read at h
  dsimp only at h
  split_ifs at h with empty
  · obtain rfl := Option.some.inj h
    trivial
  · rw [ofTrimmed?_eq, ofRules] at h
    split at h
    · rename_i rule found
      exact sound_of_rules rule (List.mem_of_find?_eq_some found) _ m h
    · exact sound_of_input h

/-! ### Openings -/

/-- No opening begins another. -/
theorem openings_apart :
    ∀ o ∈ rules.map Rule.opening, ∀ p ∈ rules.map Rule.opening, o <+: p → o = p := by
  decide

theorem rule_unique {line : Text} {p q : Rule} (hp : p ∈ rules) (hq : q ∈ rules)
    (opens : Text.startsWith p.opening line = true)
    (opens' : Text.startsWith q.opening line = true) : p = q := by
  have distinct : (rules.map Rule.opening).Nodup := by decide
  have ho := List.mem_map_of_mem (f := Rule.opening) hp
  have ho' := List.mem_map_of_mem (f := Rule.opening) hq
  refine List.inj_on_of_nodup_map distinct hp hq ?_
  rcases List.prefix_or_prefix_of_prefix (Text.startsWith_iff.mp opens)
    (Text.startsWith_iff.mp opens') with shorter | longer
  · exact openings_apart _ ho _ ho' shorter
  · exact (openings_apart _ ho' _ ho longer).symm

theorem ofRules_perm {shuffled : List Rule} (h : shuffled.Perm rules) (line : Text) :
    ofRules shuffled line = ofTrimmed? line := by
  rw [ofTrimmed?_eq, ofRules, ofRules]
  have same : shuffled.find? (fun rule => Text.startsWith rule.opening line) =
      rules.find? (fun rule => Text.startsWith rule.opening line) := by
    cases found : rules.find? (fun rule => Text.startsWith rule.opening line) with
    | none =>
        rw [List.find?_eq_none] at found ⊢
        exact fun rule hrule => found rule (h.mem_iff.mp hrule)
    | some rule =>
        have opens := List.find?_some found
        have listed := List.mem_of_find?_eq_some found
        cases other : shuffled.find? (fun rule => Text.startsWith rule.opening line) with
        | none => exact absurd opens (List.find?_eq_none.mp other rule (h.mem_iff.mpr listed))
        | some first =>
            have opens' := List.find?_some other
            rw [rule_unique (h.mem_iff.mp (List.mem_of_find?_eq_some other)) listed opens' opens]
  rw [same]

/-! ### Keys -/

theorem isBlank_of_isKeyChar {c : Char} (h : isKeyChar c = true) : Text.isBlank c = false := by
  simp only [isKeyChar, Char.isAlphanum, Char.isAlpha, Char.isUpper, Char.isLower, Char.isDigit,
    Bool.or_eq_true, Bool.and_eq_true, decide_eq_true_eq, UInt32.le_iff_toNat_le, ge_iff_le,
    beq_iff_eq] at h
  change (((65 ≤ c.toNat ∧ c.toNat ≤ 90) ∨ (97 ≤ c.toNat ∧ c.toNat ≤ 122)) ∨
    (48 ≤ c.toNat ∧ c.toNat ≤ 57)) ∨ c = '_' at h
  have printed : 48 ≤ c.toNat ∧ c.toNat ≤ 122 := by
    rcases h with ((upper | lower) | digit) | rfl
    · omega
    · omega
    · omega
    · decide
  simp only [Text.isBlank, Bool.or_eq_false_iff, Bool.and_eq_false_iff, decide_eq_false_iff_not,
    beq_eq_false_iff_ne, ne_eq]
  omega

/-- A key that makes a line `key: value` an input parameter: a plain word that no opening of
another marker begins with. -/
structure IsKey (key : Text) : Prop where
  nonempty : key ≠ []
  plain : key.all isKeyChar = true
  unopened : ∀ rest, ofTrimmed? (key ++ ':' :: rest) = input? (key ++ ':' :: rest)

theorem IsKey.isWord {key : Text} (h : IsKey key) : Text.IsWord key :=
  ⟨h.nonempty, fun c hc => isBlank_of_isKeyChar (List.all_eq_true.mp h.plain c hc)⟩

/-- The key goes up to the first colon, so the value may hold more of them. -/
theorem input?_eq {key rest : Text} (h : IsKey key) :
    input? (key ++ ':' :: rest) = some (.input key (Text.trim rest)) := by
  have colon : ':' ∉ key := by
    intro hc
    cases List.all_eq_true.mp h.plain ':' hc
  have some : key.isEmpty = false := by
    cases key with
    | nil => exact absurd rfl h.nonempty
    | cons c key => rfl
  simp only [input?, Text.cut?_append colon, h.isWord.trim, some, h.plain, Bool.not_false,
    Bool.and_self, if_true]

/-- Openings go on behind their key characters, and only one with a colon. -/
theorem openings_go_on : ∀ o ∈ rules.map Rule.opening,
    o = "Inputs".toList ++ [':'] ∨ (o.dropWhile isKeyChar).head?.any (· != ':') = true := by
  decide +kernel

/-- Every plain word is a key but one, which is an opening with the colon behind it. -/
theorem isKey {key : Text} (hne : key ≠ []) (plain : key.all isKeyChar = true)
    (h : key ≠ "Inputs".toList) : IsKey key := by
  refine ⟨hne, plain, fun rest => ?_⟩
  have all : ∀ c ∈ key, isKeyChar c = true := List.all_eq_true.mp plain
  have behind : (key ++ ':' :: rest).dropWhile isKeyChar = ':' :: rest := by
    rw [List.dropWhile_append_of_pos all]
    rfl
  have unopened : rules.find? (fun rule => Text.startsWith rule.opening (key ++ ':' :: rest)) =
      none := by
    refine List.find?_eq_none.mpr fun rule hrule opens => ?_
    obtain ⟨more, whole⟩ := Text.startsWith_iff.mp opens
    rcases openings_go_on rule.opening (List.mem_map_of_mem hrule) with inputs | goesOn
    · have words : ∀ c ∈ "Inputs".toList, isKeyChar c = true :=
        List.all_eq_true.mp (by decide)
      have taken : (rule.opening ++ more).takeWhile isKeyChar = "Inputs".toList := by
        rw [inputs, List.append_assoc, List.takeWhile_append_of_pos words]
        rfl
      rw [whole, List.takeWhile_append_of_pos all] at taken
      exact h (by simpa [isKeyChar] using taken)
    · cases stop : rule.opening.dropWhile isKeyChar with
      | nil =>
          rw [stop] at goesOn
          cases goesOn
      | cons c tail =>
          have dropped : (rule.opening ++ more).dropWhile isKeyChar = c :: tail ++ more := by
            rw [List.dropWhile_append, stop]
            rfl
          rw [whole, behind] at dropped
          cases dropped
          rw [stop] at goesOn
          cases goesOn
  rw [ofTrimmed?_eq, ofRules, unopened]

/-! ### Lines that read back -/

theorem read_blanks {a b : Text} (ha : ∀ c ∈ a, Text.isBlank c = true)
    (hb : ∀ c ∈ b, Text.isBlank c = true) (line : Text) : read (a ++ line ++ b) = read line := by
  rw [read, read, Text.trim_append_blanks hb, Text.trim_blanks_append ha]

theorem read_of_trim {line t : Text} (h : Text.trim line = t) (hne : t ≠ []) :
    read line = ofTrimmed? t := by
  have some : t.isEmpty = false := List.isEmpty_eq_false_iff.mpr hne
  simp only [read, h, some, Bool.false_eq_true, if_false]

theorem read_of_ends {line : Text} {c d : Char} (hc : line.head? = some c)
    (hd : line.getLast? = some d) (first : Text.isBlank c = false)
    (last : Text.isBlank d = false) : read line = ofTrimmed? line :=
  read_of_trim (Text.trim_of_ends hc hd first last) (List.ne_nil_of_mem (List.mem_of_mem_head? hc))

/-- Of a line that ends in a word only the first character can be a blank to trim off. -/
theorem read_of_word (front : Text) {word : Text} {c : Char} (hc : front.head? = some c)
    (first : Text.isBlank c = false) (h : Text.IsWord word) :
    read (front ++ word) = ofTrimmed? (front ++ word) := by
  obtain ⟨rest, rfl⟩ := List.head?_eq_some_iff.mp hc
  exact read_of_trim (Text.trim_append_of_ne_nil first h.trim h.nonempty) (List.cons_ne_nil _ _)

/-- A line with a word between a front and a back, which a rule asks for. -/
theorem read_of_word_between {front word back : Text} {c d : Char} (make : Text → Marker)
    (hc : front.head? = some c) (hd : back.getLast? = some d) (first : Text.isBlank c = false)
    (last : Text.isBlank d = false) (next : ∀ c ∈ back.head?, Text.isBlank c = true)
    (h : Text.IsWord word)
    (rule : ofTrimmed? (front ++ word ++ back) = (Text.word? 0 (word ++ back)).map make) :
    read (front ++ word ++ back) = some (make word) := by
  have starts : (front ++ word ++ back).head? = some c := by
    rw [List.append_assoc, List.head?_append, hc, Option.some_or]
  have ends : (front ++ word ++ back).getLast? = some d := by
    rw [List.getLast?_append, hd, Option.some_or]
  rw [read_of_ends starts ends first last, rule, h.word? next, Option.map_some]

theorem read_behind {t : Text} (front : Text) (make : Text → Marker) (hne : front ≠ [])
    (trimmed : Text.trim front = front) (ht : Text.trim t = t)
    (rule : ∀ rest, ofTrimmed? (front ++ rest) = some (make (Text.trim rest))) :
    read (front ++ ' ' :: t) = some (make t) := by
  obtain ⟨rest, whole, behind⟩ := Text.exists_trim_behind hne trimmed ht
  rw [read_of_trim whole (List.append_ne_nil_of_left_ne_nil hne rest), rule, behind]

/-- Of the bracket behind a signature and of those inside, the one behind is dropped. -/
theorem signature?_eq {line signature : Text} (hne : signature ≠ [])
    (htrim : Text.trim signature = signature)
    (hline : Text.afterFirst? "type: ".toList line = some (signature ++ " ]".toList)) :
    signature? line = some signature := by
  have last : (signature ++ " ]".toList).getLast? = some ']' := by
    rw [List.getLast?_append]
    rfl
  have whole : Text.trimEnd (signature ++ " ]".toList) = signature ++ " ]".toList := by
    refine Text.trimEnd_eq_self_iff.mpr fun c hc => ?_
    obtain rfl := Option.some.inj (last.symm.trans hc)
    rfl
  have inner : (signature ++ " ]".toList).dropLast = signature ++ [' '] := by
    change (signature ++ [' ', ']']).dropLast = _
    rw [List.dropLast_append_of_ne_nil (List.cons_ne_nil _ _)]
    rfl
  have some : signature.isEmpty = false := List.isEmpty_eq_false_iff.mpr hne
  simp only [signature?, hline, whole, last, if_true, inner,
    Text.trim_append_blank (show Text.isBlank ' ' = true from rfl) htrim, some,
    Bool.false_eq_true, if_false]

theorem read_of_signature {signature : Text} {c : Char} (front : Text) (hc : front.head? = some c)
    (first : Text.isBlank c = false) (hne : signature ≠ [])
    (htrim : Text.trim signature = signature)
    (behind : Text.afterFirst? "type: ".toList (front ++ signature ++ " ]".toList) =
      some (signature ++ " ]".toList))
    (rule : ofTrimmed? (front ++ signature ++ " ]".toList) =
      (signature? (front ++ signature ++ " ]".toList)).map .indexType) :
    read (front ++ signature ++ " ]".toList) = some (.indexType signature) := by
  have starts : (front ++ signature ++ " ]".toList).head? = some c := by
    rw [List.append_assoc, List.head?_append, hc, Option.some_or]
  have ends : (front ++ signature ++ " ]".toList).getLast? = some ']' := by
    rw [List.getLast?_append]
    rfl
  rw [read_of_ends starts ends first rfl, rule, signature?_eq hne htrim behind, Option.map_some]

theorem read_of_last_word {word : Text} {c : Char} (front : Text) (make : Text → Marker)
    (hc : front.head? = some c) (first : Text.isBlank c = false) (h : Text.IsWord word)
    (rule : ofTrimmed? (front ++ word) = (Text.word? 0 word).map make) :
    read (front ++ word) = some (make word) := by
  rw [read_of_word front hc first h, rule, h.word?_self, Option.map_some]

/-- A payload of its sort reads back, unless it is the key that opens a block. -/
theorem Sound.read_line {m : Marker} (h : m.Sound)
    (hkey : ∀ value, m ≠ .input "Inputs".toList value) : read m.line = some m := by
  cases m with
  | runStart => rfl
  | inputsStart => rfl
  | blank => rfl
  | benchmark word =>
      exact read_of_word_between .benchmark rfl (show _ = some 'd' from rfl) rfl rfl
        (by simp [Text.isBlank]) h rfl
  | schema path => exact read_of_last_word "Reading schema file: ".toList .schema rfl rfl h rfl
  | indexType signature =>
      exact read_of_signature "[ type: ".toList rfl rfl h.1 h.2 rfl rfl
  | implementation signature =>
      exact read_of_last_word "RBT implementation ".toList .implementation rfl rfl h rfl
  | threads count =>
      exact read_of_word_between .threads rfl (show _ = some 's' from rfl) rfl rfl
        (by simp [Text.isBlank]) h rfl
  | component pairs =>
      exact read_behind "Per-index stats:".toList .component (List.cons_ne_nil _ _)
        (by decide) h fun _ => rfl
  | summary pairs =>
      exact read_behind "[summary]".toList .summary (List.cons_ne_nil _ _)
        (by decide) h fun _ => rfl
  | input key value =>
      obtain ⟨hne, plain, trimmed⟩ := h
      have isKey := isKey hne plain fun inputs => hkey value (by rw [inputs])
      have colon : Text.trim (key ++ [':']) = key ++ [':'] :=
        Text.trim_append hne isKey.isWord.trim (by decide)
      have rule (rest : Text) : ofTrimmed? (key ++ [':'] ++ rest) =
          some (.input key (Text.trim rest)) := by
        rw [List.append_assoc]
        exact (isKey.unopened rest).trans (input?_eq isKey)
      have whole : (input key value).line = key ++ [':'] ++ ' ' :: value := by
        change key ++ ": ".toList ++ value = _
        rw [List.append_assoc, List.append_assoc]
        rfl
      rw [whole]
      exact read_behind _ (.input key) (List.append_ne_nil_of_left_ne_nil hne _) colon trimmed rule
  | throughput rate =>
      exact read_of_last_word "Throughput(Ops/usec): ".toList .throughput rfl rfl h rfl
  | expectedSize size =>
      exact read_of_last_word "Expected size of MAP: ".toList .expectedSize rfl rfl h rfl

/-- Whatever marker a line is read as, its payload is of its sort, and its own line is read as
the same marker, with blanks around it as well, unless it is the parameter `Inputs`. A line
has one opening at most, so the openings may be tried in any order. -/
theorem lines_read_back (text : Text) :
    (∀ m, read text = some m → m.Sound ∧
      ((∀ value, m ≠ .input "Inputs".toList value) → ∀ a b,
        (∀ c ∈ a, Text.isBlank c = true) → (∀ c ∈ b, Text.isBlank c = true) →
          read (a ++ m.line ++ b) = some m)) ∧
      (∀ p ∈ rules, ∀ q ∈ rules, Text.startsWith p.opening text = true →
        Text.startsWith q.opening text = true → p = q) ∧
      ∀ shuffled, List.Perm shuffled rules → ofTrimmed? text = ofRules shuffled text := by
  refine ⟨fun m h => ?_, fun p hp q hq => rule_unique hp hq,
    fun shuffled h => (ofRules_perm h text).symm⟩
  have sound := sound_of_read h
  refine ⟨sound, fun hkey a b ha hb => ?_⟩
  rw [read_blanks ha hb, sound.read_line hkey]

end Marker
end RunLog

import Mathlib
import Modall.Ops.Telemetry

/-!
# Reading the metrics exposition

The reader takes the text of `MetricsRegistry.render` line by line, as OpenMetrics prescribes:
comments are skipped, every other line is a sample, and in a label value `\\`, `\"` and `\n` are
unescaped. What it reads back is compared with what the registry holds.
-/
namespace Modall
open Library

/-! ## The reader -/

structure Sample where
  name : List Char
  labels : List (List Char × List Char)
  value : ℚ
deriving DecidableEq

/-- A label value up to its closing quote, and what follows the quote. -/
def readLabelValue : List Char → Option (List Char × List Char)
  | [] => none
  | '"' :: rest => some ([], rest)
  | '\\' :: '\\' :: rest => (readLabelValue rest).map fun r => ('\\' :: r.1, r.2)
  | '\\' :: '"' :: rest => (readLabelValue rest).map fun r => ('"' :: r.1, r.2)
  | '\\' :: 'n' :: rest => (readLabelValue rest).map fun r => ('\n' :: r.1, r.2)
  | '\\' :: _ => none
  | c :: rest => (readLabelValue rest).map fun r => (c :: r.1, r.2)

def readLabel (text : List Char) : Option ((List Char × List Char) × List Char) :=
  let name := text.takeWhile isWordChar
  if name = [] then none
  else match text.dropWhile isWordChar with
    | '=' :: '"' :: rest => (readLabelValue rest).map fun r => ((name, r.1), r.2)
    | _ => none

/-- Labels up to the closing brace; the fuel bounds their number. -/
def readLabels : Nat → List Char → Option (List (List Char × List Char) × List Char)
  | 0, _ => none
  | fuel + 1, text =>
    match readLabel text with
    | some (label, '\x7d' :: rest) => some ([label], rest)
    | some (label, ',' :: rest) => (readLabels fuel rest).map fun r => (label :: r.1, r.2)
    | _ => none

def readLabelSet : List Char → Option (List (List Char × List Char) × List Char)
  | '\x7b' :: rest => readLabels rest.length rest
  | rest => some ([], rest)

def readSample (line : List Char) : Option Sample :=
  let name := line.takeWhile isWordChar
  if name = [] then none
  else match readLabelSet (line.dropWhile isWordChar) with
    | some (labels, ' ' :: number) => (Decimal.parse number).map fun value => ⟨name, labels, value⟩
    | _ => none

def readLine : List Char → Option (List Sample)
  | [] => some []
  | '#' :: _ => some []
  | line => (readSample line).map ([·])

def readExposition (text : List Char) : Option (List Sample) :=
  ((text.splitOn '\n').mapM readLine).map List.flatten

/-! ## Label values -/

def escapeChar (c : Char) : List Char :=
  if c = '\\' then ['\\', '\\'] else if c = '"' then ['\\', '"'] else [c]

lemma escapeLabelValue_cons (c : Char) (value : List Char) :
    escapeLabelValue (c :: value) = escapeChar c ++ escapeLabelValue value := by
  simp only [escapeLabelValue, escapeChar, List.flatMap_cons, List.flatMap_append]
  grind

@[simp] lemma escapeLabelValue_nil : escapeLabelValue [] = [] := rfl

lemma readLabelValue_escapeChar (c : Char) (rest : List Char) :
    readLabelValue (escapeChar c ++ rest) =
      (readLabelValue rest).map fun r => (c :: r.1, r.2) := by
  by_cases hslash : c = '\\'
  · subst hslash
    rfl
  by_cases hquote : c = '"'
  · subst hquote
    rfl
  simp only [escapeChar, if_neg hslash, if_neg hquote, List.cons_append, List.nil_append]
  rw [readLabelValue] <;> simp_all

/-- An escaped value is read back, up to the quote that closes it. -/
lemma readLabelValue_escaped (value rest : List Char) :
    readLabelValue (escapeLabelValue value ++ '"' :: rest) = some (value, rest) := by
  induction value with
  | nil => rfl
  | cons c value ih =>
    rw [escapeLabelValue_cons, List.append_assoc, readLabelValue_escapeChar, ih]
    rfl

/-- Without the closing quote nothing is read. -/
lemma readLabelValue_unclosed (value : List Char) :
    readLabelValue (escapeLabelValue value) = none := by
  induction value with
  | nil => rfl
  | cons c value ih =>
    rw [escapeLabelValue_cons, readLabelValue_escapeChar, ih]
    rfl

lemma newline_mem_escapeChar (c : Char) : '\n' ∈ escapeChar c ↔ c = '\n' := by
  grind [escapeChar]

lemma newline_mem_escaped (value : List Char) : '\n' ∈ escapeLabelValue value ↔ '\n' ∈ value := by
  induction value with
  | nil => simp
  | cons c value ih =>
    rw [escapeLabelValue_cons, List.mem_append, newline_mem_escapeChar, ih, List.mem_cons]
    grind

/-! ## Labels -/

/-- No label value has a line break in it. -/
def Series.OneLine (series : Series) : Prop := ∀ label ∈ series.labels, '\n' ∉ label.2

instance (series : Series) : Decidable series.OneLine :=
  inferInstanceAs (Decidable (∀ _ ∈ _, _))

namespace Identifier
variable (name : Identifier)

lemma isWordChar_of_mem : ∀ c ∈ name.text, isWordChar c := by
  simpa using name.wellFormed.2

lemma newline_not_mem : '\n' ∉ name.text := fun h => by
  have := name.isWordChar_of_mem _ h
  revert this
  decide

/-- A name is read up to the first character that is not a word character. -/
lemma takeWhile_text (rest : List Char) (h : ∀ c ∈ rest.head?, ¬ isWordChar c) :
    (name.text ++ rest).takeWhile isWordChar = name.text ∧
      (name.text ++ rest).dropWhile isWordChar = rest := by
  have hstop : rest.takeWhile isWordChar = [] ∧ rest.dropWhile isWordChar = rest := by
    cases rest with
    | nil => simp
    | cons c rest => simp_all
  rw [List.takeWhile_append_of_pos name.isWordChar_of_mem,
    List.dropWhile_append_of_pos name.isWordChar_of_mem, hstop.1, hstop.2]
  simp

end Identifier

/-- The name and value of a label, as text. -/
def labelText (label : Identifier × List Char) : List Char × List Char := (label.1.text, label.2)

lemma readLabel_named (name : Identifier) (rest : List Char) :
    readLabel (name.text ++ '=' :: '"' :: rest) =
      (readLabelValue rest).map fun r => ((name.text, r.1), r.2) := by
  obtain ⟨htake, hdrop⟩ := name.takeWhile_text ('=' :: '"' :: rest) (by simp; decide)
  simp [readLabel, htake, hdrop, name.wellFormed.1]

lemma readLabel_formatLabel (label : Identifier × List Char) (rest : List Char) :
    readLabel (formatLabel label ++ rest) = some (labelText label, rest) := by
  have htext : formatLabel label ++ rest =
      label.1.text ++ '=' :: '"' :: (escapeLabelValue label.2 ++ '"' :: rest) := by
    simp [formatLabel]
  rw [htext, readLabel_named, readLabelValue_escaped]
  rfl

/-- The labels between the braces, and the closing brace. -/
def labelBody (labels : Labels) (rest : List Char) : List Char :=
  [','].intercalate (labels.map formatLabel) ++ '\x7d' :: rest

lemma labelBody_singleton (label : Identifier × List Char) (rest : List Char) :
    labelBody [label] rest = formatLabel label ++ '\x7d' :: rest := by
  simp [labelBody]

lemma labelBody_cons (label next : Identifier × List Char) (labels : Labels) (rest : List Char) :
    labelBody (label :: next :: labels) rest =
      formatLabel label ++ ',' :: labelBody (next :: labels) rest := by
  simp [labelBody, List.intercalate]

/-- Labels are read back up to the closing brace. -/
lemma readLabels_labelBody (labels : Labels) (hne : labels ≠ []) (rest : List Char) (fuel : Nat)
    (hfuel : labels.length ≤ fuel) :
    readLabels fuel (labelBody labels rest) = some (labels.map labelText, rest) := by
  induction labels generalizing fuel with
  | nil => exact absurd rfl hne
  | cons label labels ih =>
    obtain ⟨fuel, rfl⟩ : ∃ k, fuel = k + 1 := ⟨fuel - 1, by simp at hfuel; omega⟩
    cases labels with
    | nil => simp [labelBody_singleton, readLabels, readLabel_formatLabel]
    | cons next labels =>
      have htail := ih (by simp) fuel (by simpa using hfuel)
      simp [labelBody_cons, readLabels, readLabel_formatLabel, htail]

lemma newline_mem_formatLabel (label : Identifier × List Char) :
    '\n' ∈ formatLabel label ↔ '\n' ∈ label.2 := by
  have := label.1.newline_not_mem
  simp [formatLabel, newline_mem_escaped, this]

/-- The part of a text before its first line break. -/
def firstLine (text : List Char) : List Char := text.takeWhile (· ≠ '\n')

lemma firstLine_append {a b : List Char} (h : '\n' ∉ a) : firstLine (a ++ b) = a ++ firstLine b := by
  refine List.takeWhile_append_of_pos fun c hc => ?_
  simp only [ne_eq, decide_not, Bool.not_eq_eq_eq_not, Bool.not_true, decide_eq_false_iff_not]
  rintro rfl
  exact h hc

lemma firstLine_of_mem {a b : List Char} (h : '\n' ∈ a) : firstLine (a ++ b) = firstLine a := by
  induction a with
  | nil => simp at h
  | cons c a ih =>
    by_cases hc : c = '\n'
    · simp [firstLine, hc]
    · have := ih (by grind)
      simp_all [firstLine]

lemma firstLine_escaped (value : List Char) :
    firstLine (escapeLabelValue value) = escapeLabelValue (firstLine value) := by
  induction value with
  | nil => rfl
  | cons c value ih =>
    by_cases hc : c = '\n'
    · subst hc
      rfl
    · have hnot : '\n' ∉ escapeChar c := by
        rwa [newline_mem_escapeChar]
      have hfirst : firstLine (c :: value) = c :: firstLine value := by simp [firstLine, hc]
      rw [escapeLabelValue_cons, firstLine_append hnot, ih, hfirst, escapeLabelValue_cons]

/-- A label value that a line break cuts off is not read. -/
lemma readLabel_cut (label : Identifier × List Char) (h : '\n' ∈ label.2) (rest : List Char) :
    readLabel (firstLine (formatLabel label ++ rest)) = none := by
  have hvalue : '\n' ∈ escapeLabelValue label.2 := (newline_mem_escaped _).mpr h
  have htext : formatLabel label ++ rest =
      (label.1.text ++ ['=', '"']) ++ (escapeLabelValue label.2 ++ '"' :: rest) := by
    simp [formatLabel]
  have hhead : '\n' ∉ label.1.text ++ ['=', '"'] := by
    simp [label.1.newline_not_mem]
  rw [htext, firstLine_append hhead, firstLine_of_mem hvalue, firstLine_escaped,
    List.append_assoc]
  have hread := readLabel_named label.1 (escapeLabelValue (firstLine label.2))
  rw [readLabelValue_unclosed] at hread
  simpa using hread

/-- So labels with a line break among them are not read. -/
lemma readLabels_cut (labels : Labels) (h : ∃ label ∈ labels, '\n' ∈ label.2) (rest : List Char)
    (fuel : Nat) : readLabels fuel (firstLine (labelBody labels rest)) = none := by
  induction labels generalizing fuel with
  | nil => simp at h
  | cons label labels ih =>
    cases fuel with
    | zero => rfl
    | succ fuel =>
      by_cases hcut : '\n' ∈ label.2
      · have hread : readLabel (firstLine (labelBody (label :: labels) rest)) = none := by
          cases labels with
          | nil => rw [labelBody_singleton, readLabel_cut label hcut]
          | cons next labels => rw [labelBody_cons, readLabel_cut label hcut]
        simp [readLabels, hread]
      · cases labels with
        | nil => simp [hcut] at h
        | cons next labels =>
          have hnot : '\n' ∉ formatLabel label := by rwa [newline_mem_formatLabel]
          have htail := ih (by simpa [hcut] using h) fuel
          have hcomma : firstLine (',' :: labelBody (next :: labels) rest) =
              ',' :: firstLine (labelBody (next :: labels) rest) := rfl
          rw [labelBody_cons, firstLine_append hnot, hcomma]
          simp [readLabels, readLabel_formatLabel, htail]

/-! ## Samples -/

/-- What a reader should get for a sample that `render` writes. -/
def sampleRead (sample : Series × Int) : Sample where
  name := sample.1.name.text
  labels := sample.1.labels.map labelText
  value := Decimal.roundedInt 10 6 sample.2

lemma formatLabels_of_ne_nil {labels : Labels} (h : labels ≠ []) (rest : List Char) :
    formatLabels labels ++ rest = '\x7b' :: labelBody labels rest := by
  simp [formatLabels, h, labelBody]

lemma length_labelBody (labels : Labels) (rest : List Char) :
    labels.length ≤ (labelBody labels rest).length := by
  induction labels with
  | nil => simp
  | cons label labels ih =>
    cases labels with
    | nil =>
      simp only [labelBody_singleton, List.length_append, List.length_cons, List.length_nil]
      omega
    | cons next labels =>
      simp only [labelBody_cons, List.length_append, List.length_cons] at ih ⊢
      omega

lemma head_formatLabels (labels : Labels) (rest : List Char) :
    ∀ c ∈ (formatLabels labels ++ ' ' :: rest).head?, ¬ isWordChar c := by
  by_cases h : labels = []
  · simp [formatLabels, h]
    decide
  · simp [formatLabels_of_ne_nil h]
    decide

lemma readLabelSet_formatLabels (labels : Labels) (rest : List Char) :
    readLabelSet (formatLabels labels ++ ' ' :: rest) =
      some (labels.map labelText, ' ' :: rest) := by
  by_cases h : labels = []
  · simp [formatLabels, h, readLabelSet]
  · rw [formatLabels_of_ne_nil h, readLabelSet, readLabels_labelBody labels h]
    exact length_labelBody labels _

lemma readSample_sampleLine (sample : Series × Int) :
    readSample (sampleLine sample) = some (sampleRead sample) := by
  obtain ⟨htake, hdrop⟩ := sample.1.name.takeWhile_text _
    (head_formatLabels sample.1.labels (Decimal.format 6 sample.2))
  have hnumber := Decimal.parse_format (p := 6) (by decide) sample.2
  simp [readSample, sampleLine, htake, hdrop, sample.1.name.wellFormed.1,
    readLabelSet_formatLabels, hnumber, sampleRead]

/-- With a line break in a label value, the first line of a sample is not one. -/
lemma readSample_cut (sample : Series × Int) (h : ¬ sample.1.OneLine) :
    readSample (firstLine (sampleLine sample)) = none := by
  have hcut : ∃ label ∈ sample.1.labels, '\n' ∈ label.2 := by
    simpa [Series.OneLine] using h
  have hne : sample.1.labels ≠ [] := by
    obtain ⟨label, hmem, -⟩ := hcut
    exact List.ne_nil_of_mem hmem
  have hopen : ∀ rest, firstLine ('\x7b' :: rest) = '\x7b' :: firstLine rest := fun _ => rfl
  obtain ⟨htake, hdrop⟩ := sample.1.name.takeWhile_text
    ('\x7b' :: firstLine (labelBody sample.1.labels (' ' :: Decimal.format 6 sample.2)))
    (by simp; decide)
  rw [sampleLine, List.append_assoc, firstLine_append sample.1.name.newline_not_mem,
    formatLabels_of_ne_nil hne, hopen]
  simp [readSample, htake, hdrop, readLabelSet, readLabels_cut _ hcut]

lemma readLine_of_word {line : List Char} (h : ∃ c rest, line = c :: rest ∧ isWordChar c) :
    readLine line = (readSample line).map ([·]) := by
  obtain ⟨c, rest, rfl, hword⟩ := h
  unfold readLine
  split
  · simp_all
  case h_2 heq =>
    obtain rfl : c = '#' := by simpa using (List.cons.inj heq).1
    exact absurd hword (by decide)
  · rfl

lemma newline_not_mem_format (p : Nat) (z : Int) : '\n' ∉ Decimal.format p z := by
  intro h
  rcases Decimal.isDigit_of_mem_format h with h | h
  · exact absurd h (by decide)
  · exact absurd h (by decide)

lemma newline_not_mem_labelBody {labels : Labels} (h : ∀ label ∈ labels, '\n' ∉ label.2)
    {rest : List Char} (hrest : '\n' ∉ rest) : '\n' ∉ labelBody labels rest := by
  induction labels with
  | nil => simpa [labelBody] using hrest
  | cons label labels ih =>
    have hlabel : '\n' ∉ formatLabel label := by
      rw [newline_mem_formatLabel]
      exact h label (by simp)
    have htail := ih fun l hl => h l (by simp [hl])
    cases labels with
    | nil => simpa [labelBody_singleton, hlabel] using hrest
    | cons next labels => simpa [labelBody_cons, hlabel] using htail

lemma newline_not_mem_sampleLine {sample : Series × Int} (h : sample.1.OneLine) :
    '\n' ∉ sampleLine sample := by
  have hname := sample.1.name.newline_not_mem
  have hvalue : '\n' ∉ ' ' :: Decimal.format 6 sample.2 := by
    simpa using newline_not_mem_format 6 sample.2
  rw [sampleLine, List.append_assoc, List.mem_append, not_or]
  refine ⟨hname, ?_⟩
  by_cases hnil : sample.1.labels = []
  · simpa [formatLabels, hnil] using hvalue
  · rw [formatLabels_of_ne_nil hnil]
    simpa using newline_not_mem_labelBody h hvalue

/-! ## Lines -/

lemma readExposition_append (line rest : List Char) :
    readExposition (line ++ '\n' :: rest) =
      (readExposition line).bind fun a => (readExposition rest).map (a ++ ·) := by
  simp only [readExposition, List.splitOn_append_cons_self, List.mapM_append]
  cases (line.splitOn '\n').mapM readLine <;> cases (rest.splitOn '\n').mapM readLine <;> simp

lemma readExposition_line {line : List Char} (h : '\n' ∉ line) :
    readExposition line = readLine line := by
  simp only [readExposition, List.splitOn_eq_singleton h, List.mapM_cons, List.mapM_nil]
  cases readLine line <;> simp

lemma readExposition_cut {line : List Char} (h : readLine (firstLine line) = none) :
    readExposition line = none := by
  by_cases hmem : '\n' ∈ line
  · obtain ⟨before, after, rfl, hnot⟩ := List.eq_append_cons_of_mem hmem
    rw [firstLine_append hnot] at h
    simp only [firstLine, List.takeWhile_cons_of_neg, ne_eq, not_true_eq_false, decide_false,
      Bool.false_eq_true, not_false_eq_true, List.append_nil] at h
    rw [readExposition_append, readExposition_line hnot, h]
    rfl
  · have : firstLine line = line := by simpa [firstLine] using firstLine_append (b := []) hmem
    rw [readExposition_line hmem, ← this, h]

/-- A sample is read back from its line, or the whole text is not read. -/
lemma readExposition_sampleLine (sample : Series × Int) :
    readExposition (sampleLine sample) =
      if sample.1.OneLine then some [sampleRead sample] else none := by
  obtain ⟨c, name, hname⟩ := List.exists_cons_of_ne_nil sample.1.name.wellFormed.1
  have hword : isWordChar c := sample.1.name.isWordChar_of_mem c (by simp [hname])
  split
  case isTrue h =>
    rw [readExposition_line (newline_not_mem_sampleLine h),
      readLine_of_word ⟨c, _, by simp [sampleLine, hname]; rfl, hword⟩, readSample_sampleLine]
    rfl
  case isFalse h =>
    apply readExposition_cut
    have hfirst : firstLine (sampleLine sample) = sample.1.name.text ++ firstLine
        (formatLabels sample.1.labels ++ ' ' :: Decimal.format 6 sample.2) := by
      rw [sampleLine, List.append_assoc, firstLine_append sample.1.name.newline_not_mem]
    rw [readLine_of_word ⟨c, _, by rw [hfirst, hname]; rfl, hword⟩, readSample_cut sample h]
    rfl

/-- What is read from a list of lines. -/
def readLines (lines : List (List Char)) : Option (List Sample) :=
  (lines.mapM readExposition).map List.flatten

lemma readLines_append (a b : List (List Char)) :
    readLines (a ++ b) = (readLines a).bind fun x => (readLines b).map (x ++ ·) := by
  simp only [readLines, List.mapM_append]
  cases a.mapM readExposition <;> cases b.mapM readExposition <;> simp

lemma readLines_cons (line : List Char) (lines : List (List Char)) :
    readLines (line :: lines) =
      (readExposition line).bind fun x => (readLines lines).map (x ++ ·) := by
  simp only [readLines, List.mapM_cons]
  cases readExposition line <;> cases lines.mapM readExposition <;> simp

lemma readExposition_joined (lines : List (List Char)) (hne : lines ≠ []) :
    readExposition (['\n'].intercalate lines ++ ['\n']) = readLines lines := by
  induction lines with
  | nil => exact absurd rfl hne
  | cons line lines ih =>
    cases lines with
    | nil =>
      have hempty : readExposition [] = some [] := rfl
      simp [readExposition_append, hempty, readLines]
    | cons next lines =>
      have htail := ih (by simp)
      have htext : ['\n'].intercalate (line :: next :: lines) ++ ['\n'] =
          line ++ '\n' :: (['\n'].intercalate (next :: lines) ++ ['\n']) := by
        simp [List.intercalate]
      rw [htext, readExposition_append, htail, readLines_cons line]

/-- What should be read from the lines of some samples. -/
def samplesRead (samples : List (Series × Int)) : Option (List Sample) :=
  if ∀ sample ∈ samples, sample.1.OneLine then some (samples.map sampleRead) else none

lemma samplesRead_cons (sample : Series × Int) (samples : List (Series × Int)) :
    samplesRead (sample :: samples) =
      (readExposition (sampleLine sample)).bind fun x => (samplesRead samples).map (x ++ ·) := by
  rw [readExposition_sampleLine]
  simp only [samplesRead, List.forall_mem_cons]
  grind

lemma readLines_samples (samples : List (Series × Int)) :
    readLines (samples.map sampleLine) = samplesRead samples := by
  induction samples with
  | nil => rfl
  | cons sample samples ih => rw [List.map_cons, readLines_cons, samplesRead_cons, ih]

lemma samplesRead_append (a b : List (Series × Int)) :
    samplesRead (a ++ b) = (samplesRead a).bind fun x => (samplesRead b).map (x ++ ·) := by
  rw [← readLines_samples, List.map_append, readLines_append, readLines_samples,
    readLines_samples]

lemma readExposition_comment {line : List Char} (h : '\n' ∉ line) :
    readExposition ('#' :: line) = some [] := by
  rw [readExposition_line (by simpa using h)]
  rfl

lemma readLines_comment {line : List Char} (h : '\n' ∉ line) (lines : List (List Char)) :
    readLines (('#' :: line) :: lines) = readLines lines := by
  rw [readLines_cons, readExposition_comment h]
  cases readLines lines <;> simp

lemma readLines_typeLine (name : Identifier) {kind : List Char} (h : '\n' ∉ kind)
    (lines : List (List Char)) :
    readLines (typeLine name.text kind :: lines) = readLines lines := by
  have htext : typeLine name.text kind = '#' :: (" TYPE ".toList ++ name.text ++ ' ' :: kind) := rfl
  have hspace : '\n' ∉ " TYPE ".toList := by decide
  rw [htext]
  apply readLines_comment
  simp only [List.mem_append, List.mem_cons, not_or]
  exact ⟨⟨hspace, name.newline_not_mem⟩, by decide, h⟩

/-- The `# TYPE` lines add nothing to what is read. -/
lemma readLines_emitFamily {kind : List Char} (hkind : '\n' ∉ kind)
    (samples : List (Series × Int)) (emittedTypes : List Identifier) :
    readLines (emitFamily kind samples emittedTypes).1 = samplesRead samples := by
  induction samples generalizing emittedTypes with
  | nil => rfl
  | cons sample samples ih =>
    simp only [emitFamily]
    split
    · rw [readLines_cons, samplesRead_cons, ih]
    · rw [readLines_typeLine _ hkind, readLines_cons, samplesRead_cons, ih]

namespace MetricsRegistry
variable (m : MetricsRegistry)

def buildInfo : Series where
  name := ⟨"modall_build_info".toList, by decide⟩
  labels := [(⟨"version".toList, by decide⟩, "0.1.0".toList)]

/-- The samples in the order `render` writes them. -/
def rendered : List (Series × Int) :=
  [(buildInfo, 1)] ++ sortedItems m.counters ++ sortedItems m.gauges ++
    m.sortedDurations.flatMap fun item => histogramSamples item.1 item.2

lemma readLines_renderLines : readLines m.renderLines = samplesRead m.rendered := by
  have hinfo : "modall_build_info\x7bversion=\"0.1.0\"\x7d 1".toList = sampleLine (buildInfo, 1) := by
    decide
  have hhistograms : (m.sortedDurations.flatMap
      fun item => (histogramSamples item.1 item.2).map sampleLine) =
        (m.sortedDurations.flatMap fun item => histogramSamples item.1 item.2).map sampleLine := by
    rw [List.map_flatMap]
  have hstart : readLines ["# TYPE modall_build_info gauge".toList, sampleLine (buildInfo, 1)] =
      samplesRead [(buildInfo, 1)] := by
    have hcomment : '\n' ∉ " TYPE modall_build_info gauge".toList := by decide
    rw [← readLines_samples]
    exact readLines_comment hcomment _
  have hend : readLines ["# EOF".toList] = some [] := rfl
  have hheader : readLines (if items m.durations = [] then []
      else ["# TYPE modall_http_request_duration_seconds histogram".toList]) = some [] := by
    split <;> rfl
  simp only [renderLines, rendered, readLines_append, samplesRead_append, hhistograms,
    readLines_samples, hend, hheader, readLines_emitFamily (by decide : '\n' ∉ "counter".toList),
    readLines_emitFamily (by decide : '\n' ∉ "gauge".toList), hinfo, hstart, Option.map_some,
    List.append_nil, Option.bind_fun_some]

/-- What a reader gets from the exposition. -/
theorem readExposition_render : readExposition m.render = samplesRead m.rendered := by
  have hne : m.renderLines ≠ [] := List.append_ne_nil_of_right_ne_nil _ (List.cons_ne_nil _ _)
  rw [render, readExposition_joined _ hne, readLines_renderLines]

/-! ## Faithfulness -/

/-- Everything the registry exposes, as it holds it. -/
def samples : List (Series × Int) :=
  (buildInfo, 1) :: (items m.counters ++ items m.gauges ++
    (items m.durations).flatMap fun item => histogramSamples item.1 item.2)

/-- The counters, the gauges and the counts of the histograms. -/
def stored : List (Series × Int) :=
  items m.counters ++ items m.gauges ++
    (items m.durations).flatMap fun item =>
      bucketSamples item.1 item.2 ++ [(⟨durationCountName, item.1⟩, item.2.count)]

/-- The samples of a series. -/
def readFor (series : Series) (read : List Sample) : List Sample :=
  read.filter fun sample =>
    sample.name = series.name.text ∧ sample.labels = series.labels.map labelText

/-- Each stored number is read back once, under its own name and labels and with its value. -/
def Faithful : Prop :=
  ∃ read, readExposition m.render = some read ∧
    ∀ sample ∈ m.stored, readFor sample.1 read =
      [⟨sample.1.name.text, sample.1.labels.map labelText, sample.2⟩]

instance (n : Nat) : Decidable (Decimal.Significant 10 6 n) :=
  decidable_of_iff _ (Decimal.rounded_eq_iff (by decide) (by decide))

/-- No label value breaks its line, no stored series is exposed by something else as well, and
every stored number has at most six significant digits. -/
structure Exposable : Prop where
  oneLine : ∀ sample ∈ m.stored, sample.1.OneLine
  single : ∀ sample ∈ m.stored, (m.samples.map Prod.fst).count sample.1 = 1
  sixDigits : ∀ sample ∈ m.stored, Decimal.Significant 10 6 sample.2.natAbs

lemma rendered_perm : m.rendered.Perm m.samples := by
  have hcounters : (sortedItems m.counters).Perm (items m.counters) := List.perm_insertionSort _ _
  have hgauges : (sortedItems m.gauges).Perm (items m.gauges) := List.perm_insertionSort _ _
  have hdurations : m.sortedDurations.Perm (items m.durations) := List.perm_insertionSort _ _
  have hhistograms := hdurations.flatMap_right fun item => histogramSamples item.1 item.2
  simp only [rendered, samples, List.append_assoc, List.singleton_append]
  exact (hcounters.append (hgauges.append hhistograms)).cons _

lemma stored_subset : m.stored ⊆ m.samples := by
  intro sample h
  simp only [stored, samples, histogramSamples, List.mem_append, List.mem_cons,
    List.mem_flatMap] at h ⊢
  grind

/-- The samples that are not stored numbers: the build info, and the sums of the histograms. -/
lemma mem_samples {sample : Series × Int} (h : sample ∈ m.samples) :
    sample.1 = buildInfo ∨ ∃ counted ∈ m.stored, counted.1.labels = sample.1.labels := by
  simp only [samples, histogramSamples, List.mem_append, List.mem_cons, List.mem_flatMap,
    List.not_mem_nil, or_false] at h
  rcases h with rfl | (h | h) | ⟨item, hitem, h | rfl | rfl⟩
  · exact .inl rfl
  · exact .inr ⟨sample, by simp [stored, h], rfl⟩
  · exact .inr ⟨sample, by simp [stored, h], rfl⟩
  · refine .inr ⟨sample, ?_, rfl⟩
    exact List.mem_append_right _ (List.mem_flatMap.mpr ⟨item, hitem, List.mem_append_left _ h⟩)
  all_goals
    refine .inr ⟨(⟨durationCountName, item.1⟩, item.2.count), ?_, rfl⟩
    exact List.mem_append_right _ (List.mem_flatMap.mpr
      ⟨item, hitem, List.mem_append_right _ (List.mem_singleton_self _)⟩)

lemma oneLine_samples : (∀ sample ∈ m.samples, sample.1.OneLine) ↔
    ∀ sample ∈ m.stored, sample.1.OneLine := by
  constructor
  · exact fun h sample hmem => h sample (m.stored_subset hmem)
  · intro h sample hmem
    rcases m.mem_samples hmem with hinfo | ⟨counted, hcounted, hlabels⟩
    · rw [hinfo]
      decide
    · have := h counted hcounted
      rwa [Series.OneLine, hlabels] at this

lemma labelText_injective : Function.Injective labelText := by
  rintro ⟨⟨a, ha⟩, v⟩ ⟨⟨b, hb⟩, w⟩ h
  simp_all [labelText]

/-- What is read for a series are the samples written for it. -/
lemma readFor_map (series : Series) (samples : List (Series × Int)) :
    readFor series (samples.map sampleRead) =
      (samples.filter (·.1 = series)).map sampleRead := by
  have hiff : ∀ s : Series, (s.name.text = series.name.text ∧
      s.labels.map labelText = series.labels.map labelText) ↔ s = series := by
    intro s
    rw [labelText_injective.list_map.eq_iff]
    obtain ⟨⟨a, ha⟩, x⟩ := s
    obtain ⟨⟨b, hb⟩, y⟩ := series
    simp
  simp only [readFor, List.filter_map, Function.comp_def, sampleRead, hiff]

lemma filter_eq_singleton {samples : List (Series × Int)} {sample : Series × Int}
    (hmem : sample ∈ samples) (hcount : (samples.map Prod.fst).count sample.1 = 1) :
    samples.filter (·.1 = sample.1) = [sample] := by
  have hlength : (samples.filter (·.1 = sample.1)).length = 1 := by
    rw [← hcount, List.count, List.countP_map, List.countP_eq_length_filter]
    rfl
  obtain ⟨only, honly⟩ := List.length_eq_one_iff.mp hlength
  have : sample ∈ samples.filter (·.1 = sample.1) := by simpa using hmem
  rw [honly] at this ⊢
  rw [List.mem_singleton.mp this]

lemma count_of_filter {samples : List (Series × Int)} {series : Series}
    (h : (samples.filter (·.1 = series)).length = 1) :
    (samples.map Prod.fst).count series = 1 := by
  rw [← h, List.count, List.countP_map, List.countP_eq_length_filter]
  rfl

lemma sampleRead_eq_iff (sample : Series × Int) :
    sampleRead sample = ⟨sample.1.name.text, sample.1.labels.map labelText, sample.2⟩ ↔
      Decimal.Significant 10 6 sample.2.natAbs := by
  rw [← Decimal.roundedInt_eq_iff (by decide) (by decide)]
  simp [sampleRead]

/-- Exactly the registries that can be exposed are exposed faithfully. -/
theorem faithful_iff : m.Faithful ↔ m.Exposable := by
  have hread := m.readExposition_render
  have hcount : ∀ series, (m.rendered.map Prod.fst).count series =
      (m.samples.map Prod.fst).count series := fun series =>
    (m.rendered_perm.map Prod.fst).count_eq series
  constructor
  · rintro ⟨read, hsome, hfaithful⟩
    rw [hread, samplesRead] at hsome
    split at hsome
    case isFalse => simp at hsome
    case isTrue hlines =>
      obtain rfl : m.rendered.map sampleRead = read := by simpa using hsome
      have hone : ∀ sample ∈ m.stored, (m.samples.map Prod.fst).count sample.1 = 1 := by
        intro sample hmem
        have h := congrArg List.length (hfaithful sample hmem)
        rw [readFor_map, List.length_map] at h
        rw [← hcount, count_of_filter h]
      refine ⟨?_, hone, ?_⟩
      · rw [← oneLine_samples]
        exact fun sample hmem => hlines sample (m.rendered_perm.mem_iff.mpr hmem)
      · intro sample hmem
        have hmem' := m.rendered_perm.mem_iff.mpr (m.stored_subset hmem)
        have h := hfaithful sample hmem
        rw [readFor_map, filter_eq_singleton hmem' (by rw [hcount, hone sample hmem])] at h
        exact (sampleRead_eq_iff sample).mp (by simpa using h)
  · intro h
    have hlines : ∀ sample ∈ m.rendered, sample.1.OneLine := fun sample hmem =>
      m.oneLine_samples.mpr h.oneLine sample (m.rendered_perm.mem_iff.mp hmem)
    refine ⟨m.rendered.map sampleRead, by rw [hread, samplesRead, if_pos hlines], ?_⟩
    intro sample hmem
    have hmem' := m.rendered_perm.mem_iff.mpr (m.stored_subset hmem)
    rw [readFor_map, filter_eq_singleton hmem' (by rw [hcount, h.single sample hmem]),
      List.map_singleton, (sampleRead_eq_iff sample).mpr (h.sixDigits sample hmem)]

end MetricsRegistry

/-! ## The stalled-worker alert -/

/-- The value of an unlabelled metric. -/
def readGauge (name : Identifier) (read : List Sample) : Option ℚ :=
  (MetricsRegistry.readFor ⟨name, []⟩ read).head?.map Sample.value

/-- `time() - modall_worker_last_progress_unixtime_seconds >
modall_worker_liveness_timeout_seconds`. -/
def workerStalled (now : ℚ) (read : List Sample) : Prop :=
  ∃ lastProgress ∈ readGauge lastProgressName read,
    ∃ timeout ∈ readGauge livenessTimeoutName read, timeout < now - lastProgress

/-- The call sets this gauge. -/
def MetricsCall.SetsGauge (series : Series) : MetricsCall → Prop
  | .gauge name _ labels => ⟨name, storedLabels labels⟩ = series
  | _ => False

namespace MetricsRegistry

lemma lookup_gauge_call (m : MetricsRegistry) {series : Series} {c : MetricsCall}
    (h : ¬ c.SetsGauge series) : (m.call c).gauges.lookup series = m.gauges.lookup series := by
  cases c with
  | gauge name value labels => exact AList.lookup_insert_ne (Ne.symm h)
  | increment name amount labels => rfl
  | observeHttp durationSeconds labels => rfl
  | initializeHttp labels => rfl

/-- A gauge stays what it is while no call sets it. -/
lemma lookup_gauge_calls (m : MetricsRegistry) {series : Series} (calls : List MetricsCall)
    (h : ∀ c ∈ calls, ¬ c.SetsGauge series) :
    (calls.foldl call m).gauges.lookup series = m.gauges.lookup series := by
  induction calls generalizing m with
  | nil => rfl
  | cons c calls ih =>
    rw [List.foldl_cons, ih _ fun c hc => h c (by simp [hc]), lookup_gauge_call _ (h c (by simp))]

lemma mem_stored_of_lookup {m : MetricsRegistry} {series : Series} {value : Int}
    (h : m.gauges.lookup series = some value) : (series, value) ∈ m.stored := by
  have hmem : (series, value) ∈ items m.gauges := by
    rw [items, List.mem_map]
    exact ⟨⟨series, value⟩, AList.mem_lookup_iff.mp h, rfl⟩
  simp [stored, hmem]

/-- In a faithful exposition a stored gauge without labels is read as it is stored. -/
lemma readGauge_eq {m : MetricsRegistry} {read : List Sample} {name : Identifier} {value : Int}
    (h : ∀ sample ∈ m.stored, readFor sample.1 read =
      [⟨sample.1.name.text, sample.1.labels.map labelText, sample.2⟩])
    (hlookup : m.gauges.lookup ⟨name, []⟩ = some value) : readGauge name read = some (value : ℚ) := by
  rw [readGauge, h _ (mem_stored_of_lookup hlookup)]
  rfl

end MetricsRegistry

section liveness
open MetricsRegistry
variable {before between after : List MetricsCall} {staleAfter started wallTime : Amount}

/-- A worker's calls: its liveness is set up, and touched for the last time at `wallTime`. -/
def workerCalls (before between after : List MetricsCall) (staleAfter started wallTime : Amount) :
    List MetricsCall :=
  before ++ WorkerLiveness.init staleAfter started ++ between ++
    WorkerLiveness.touch wallTime :: after

lemma storedLabels_empty : storedLabels ∅ = [] := rfl

lemma lookup_lastProgress (h : ∀ c ∈ after, ¬ c.SetsGauge ⟨lastProgressName, []⟩) :
    (run (workerCalls before between after staleAfter started wallTime)).gauges.lookup
      ⟨lastProgressName, []⟩ = some wallTime.value := by
  rw [run, workerCalls, List.foldl_append, List.foldl_cons, lookup_gauge_calls _ _ h]
  exact AList.lookup_insert _

lemma touch_sets (h : livenessTimeoutName ≠ lastProgressName) (time : Amount) :
    ¬ (WorkerLiveness.touch time).SetsGauge ⟨livenessTimeoutName, []⟩ :=
  fun hset => h (congrArg Series.name hset).symm

lemma lookup_livenessTimeout
    (h : ∀ c ∈ between ++ after, ¬ c.SetsGauge ⟨livenessTimeoutName, []⟩) :
    (run (workerCalls before between after staleAfter started wallTime)).gauges.lookup
      ⟨livenessTimeoutName, []⟩ = some staleAfter.value := by
  have hname : livenessTimeoutName ≠ lastProgressName := by decide
  have hrest : ∀ c ∈ WorkerLiveness.touch started ::
      (between ++ WorkerLiveness.touch wallTime :: after),
      ¬ c.SetsGauge ⟨livenessTimeoutName, []⟩ := by
    intro c hc
    simp only [List.mem_cons, List.mem_append] at hc h
    rcases hc with rfl | hc | rfl | hc
    · exact touch_sets hname _
    · exact h c (.inl hc)
    · exact touch_sets hname _
    · exact h c (.inr hc)
  have hcalls : workerCalls before between after staleAfter started wallTime =
      (before ++ [.gauge livenessTimeoutName staleAfter ∅]) ++ WorkerLiveness.touch started ::
        (between ++ WorkerLiveness.touch wallTime :: after) := by
    simp [workerCalls, WorkerLiveness.init]
  rw [run, hcalls, List.foldl_append, lookup_gauge_calls _ _ hrest, List.foldl_append]
  exact AList.lookup_insert _

end liveness

/-- The exposition gives back what the registry stores exactly when no label value breaks its
line, no stored series is exposed twice and every stored number has at most six significant
digits. For a worker last touched at `wallTime`, it then shows that time, and the alert fires
only when the time since then exceeds the timeout. -/
theorem exposition_faithful_iff (calls : List MetricsCall) :
    ((MetricsRegistry.run calls).Faithful ↔ (MetricsRegistry.run calls).Exposable) ∧
    ∀ (before between after : List MetricsCall) (staleAfter started wallTime : Amount) (now : ℚ),
      calls = workerCalls before between after staleAfter started wallTime →
      (∀ c ∈ between ++ after, ¬ c.SetsGauge ⟨livenessTimeoutName, []⟩) →
      (∀ c ∈ after, ¬ c.SetsGauge ⟨lastProgressName, []⟩) →
      (MetricsRegistry.run calls).Exposable →
      ∃ read, readExposition (MetricsRegistry.run calls).render = some read ∧
        readGauge lastProgressName read = some (wallTime.value : ℚ) ∧
        (workerStalled now read ↔ (staleAfter.value : ℚ) < now - wallTime.value) := by
  refine ⟨MetricsRegistry.faithful_iff _, ?_⟩
  rintro before between after staleAfter started wallTime now rfl htimeout hprogress hm
  obtain ⟨read, hread, hfaithful⟩ := (MetricsRegistry.faithful_iff _).mpr hm
  have hlast := MetricsRegistry.readGauge_eq hfaithful (lookup_lastProgress hprogress)
  have hstale := MetricsRegistry.readGauge_eq hfaithful (lookup_livenessTimeout htimeout)
  refine ⟨read, hread, hlast, ?_⟩
  simp [workerStalled, hlast, hstale]

/-- A worker touched at 1000 s is seen as stalled from then on after ten seconds. -/
theorem exposition_faithful_sample :
    ∃ read, readExposition (MetricsRegistry.run
        (workerCalls [] [] [] ⟨10, by decide⟩ ⟨990, by decide⟩ ⟨1000, by decide⟩)).render =
      some read ∧ readGauge lastProgressName read = some ((1000 : Int) : ℚ) ∧
        (workerStalled 1011 read ↔ ((10 : Int) : ℚ) < 1011 - ((1000 : Int) : ℚ)) := by
  apply (exposition_faithful_iff _).2 [] [] [] ⟨10, by decide⟩ ⟨990, by decide⟩ ⟨1000, by decide⟩
    1011 rfl
  · simp
  · simp
  · exact ⟨by decide +kernel, by decide +kernel, by decide +kernel⟩

/-- A worker touched at 1700000400 s is shown as touched at 1700000000 s, and a second later it
counts as stalled for longer than its ten seconds. -/
theorem exposition_loses_progress :
    let m := MetricsRegistry.run (workerCalls [] [] [] ⟨10, by decide⟩ ⟨1700000390, by decide⟩
      ⟨1700000400, by decide⟩)
    ¬ m.Faithful ∧ ∃ read, readExposition m.render = some read ∧
      readGauge lastProgressName read = some 1700000000 ∧ workerStalled 1700000401 read ∧
        ¬ (10 : ℚ) < 1700000401 - 1700000400 := by
  refine ⟨?_, ?_⟩
  · rw [MetricsRegistry.faithful_iff]
    intro h
    have hdigits := h.sixDigits (⟨lastProgressName, []⟩, 1700000400) (by decide +kernel)
    exact absurd hdigits (by decide +kernel)
  · rw [MetricsRegistry.readExposition_render]
    exact ⟨_, rfl, by decide +kernel,
      ⟨1700000000, by decide +kernel, 10, by decide +kernel, by decide +kernel⟩, by decide +kernel⟩

end Modall

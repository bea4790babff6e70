import ShaderFlow.Program.Basic
import ShaderFlow.Proofs.Outcome
import ShaderFlow.Proofs.Reading.Scanner

set_option autoImplicit false

/-
The names that a source declares, read off its lines. A declaration begins with a type, which a
qualifier may precede, and the name stands behind the type, up to a blank or the end of the
statement. Lines of plain text are found again in the source that they make up.
-/

namespace ShaderFlow.Reading

section Plain

/-- The blank and the characters of ASCII that can be seen. -/
def isPlain (c : Char) : Bool := decide (32 ≤ c.toNat) && decide (c.toNat ≤ 126)

/-- Whether a text is made of plain characters. In particular it is on one line. -/
def isPlainText (s : String) : Bool := s.toList.all isPlain

theorem isPlain_of_bounds {c : Char} (low : 32 ≤ c.toNat) (high : c.toNat ≤ 126) :
    isPlain c = true := by
  simp [isPlain, low, high]

theorem isPlain_of_isWordPart {c : Char} (part : isWordPart c = true) : isPlain c = true := by
  have cases : ((c.isUpper = true ∨ c.isLower = true) ∨ c.isDigit = true) ∨ c = '_' :=
    (Bool.or_eq_true_iff.mp part).imp
      (fun alphanum => (Bool.or_eq_true_iff.mp alphanum).imp_left Bool.or_eq_true_iff.mp)
      beq_iff_eq.mp
  rcases cases with ((upper | lower) | digit) | rfl
  · have within : 65 ≤ c.toNat ∧ c.toNat ≤ 90 := of_decide_eq_true upper
    exact isPlain_of_bounds (by omega) (by omega)
  · obtain ⟨low, high⟩ := Bool.and_eq_true_iff.mp lower
    have low : 97 ≤ c.toNat := of_decide_eq_true low
    have high : c.toNat ≤ 122 := of_decide_eq_true high
    exact isPlain_of_bounds (by omega) (by omega)
  · obtain ⟨low, high⟩ := Text.digit_bounds digit
    exact isPlain_of_bounds (by omega) (by omega)
  · rfl

@[simp] theorem isPlainText_append (s t : String) :
    isPlainText (s ++ t) = (isPlainText s && isPlainText t) := by
  simp [isPlainText]

theorem isPlainText_intercalate {mark : String} (plain : isPlainText mark = true) {ss : List String}
    (each : ∀ s ∈ ss, isPlainText s = true) : isPlainText (mark.intercalate ss) = true := by
  induction ss with
  | nil => rfl
  | cons s ss ih =>
    cases ss with
    | nil => simpa using each
    | cons t ts =>
      have rest := ih fun u member => each u (List.mem_cons_of_mem s member)
      simp [String.intercalate_cons_cons, each s, plain, rest]

theorem isPlainText_join {ss : List String} (each : ∀ s ∈ ss, isPlainText s = true) :
    isPlainText (String.join ss) = true := by
  simp only [isPlainText, String.toList_join, List.all_eq_true, List.mem_flatMap] at each ⊢
  rintro c ⟨s, member, inside⟩
  exact each s member c inside

theorem isPlain_of_start? {c : Char} {began : List Token × Lexeme} (start : start? c = some began) :
    isPlain c = true := by
  unfold start? at start
  split at start
  · rename_i first
    have word : isWord [c] = true := by simp [isWord, first]
    exact isPlain_of_isWordPart (isWordPart_of_isWord word c (by simp))
  · split at start
    · rename_i digit
      exact isPlain_of_isWordPart (isWordPart_of_isDigit digit)
    · split at start
      case h_10 => cases start
      all_goals rfl

theorem isPlain_of_extend {lexeme longer : Lexeme} {c : Char}
    (goes : lexeme.extend c = some longer) : isPlain c = true := by
  cases lexeme with
  | idle => cases goes
  | word read =>
    rw [Lexeme.extend] at goes
    split at goes
    · exact isPlain_of_isWordPart ‹_›
    · cases goes
  | numeral read =>
    rw [Lexeme.extend] at goes
    split at goes
    · rename_i part
      simp only [isNumeralPart, Bool.or_eq_true, Bool.and_eq_true, beq_iff_eq] at part
      rcases part with ((digit | rfl) | rfl) | ⟨rfl | rfl, -⟩
      · exact isPlain_of_isWordPart (isWordPart_of_isDigit digit)
      all_goals rfl
    · cases goes

/-- A text that can be cut into tokens is plain. -/
theorem isPlain_of_scan {lexeme : Lexeme} {cs : List Char} {ts : List Token}
    (scanned : scan lexeme cs = some ts) : ∀ c ∈ cs, isPlain c = true := by
  induction cs generalizing lexeme ts with
  | nil => simp
  | cons d cs ih =>
    rw [scan] at scanned
    have both : isPlain d = true ∧ ∃ next ts, scan next cs = some ts := by
      split at scanned
      · rename_i longer goes
        exact ⟨isPlain_of_extend goes, _, _, scanned⟩
      · split at scanned
        · rename_i us next start
          obtain ⟨ts, rest, -⟩ := Option.map_eq_some_iff.mp scanned
          exact ⟨isPlain_of_start? start, _, _, rest⟩
        · cases scanned
    obtain ⟨here, next, ts, rest⟩ := both
    simpa [here] using ih rest

theorem isPlainText_number {x : Binary64} (finite : x.isFinite = true) :
    isPlainText x.text = true := by
  obtain ⟨ts, spells, -⟩ := exists_spells_number finite
  exact List.all_eq_true.mpr (isPlain_of_scan spells.scan_eq)

end Plain

section Lines

/-- The types that a variable can have. -/
def typeNames : List String := ["float", "vec2", "vec3", "vec4", "sampler2D"]

def qualifierNames : List String := ["uniform", "varying", "in", "out"]

/-- Whether a character ends the words of a declaration. -/
def isBreak (c : Char) : Bool := c == ' ' || c == ';'

/-- The first word of a line, and what is behind it. -/
def firstWord (line : List Char) : List Char × List Char :=
  let text := line.dropWhile (· == ' ')
  (text.takeWhile (!isBreak ·), text.dropWhile (!isBreak ·))

/-- A line without the qualifier that it may begin with. -/
def unqualified (line : List Char) : List Char :=
  if String.ofList (firstWord line).1 ∈ qualifierNames then (firstWord line).2 else line

/-- The name that a line declares. -/
def declared? (line : List Char) : Option String :=
  let (type, rest) := firstWord (unqualified line)
  if String.ofList type ∈ typeNames then some (String.ofList (firstWord rest).1) else none

/-- The names that a source declares, in order. -/
def declared (source : String) : List String := (source.toList.splitOn '\n').filterMap declared?

theorem firstWord_eq {w rest : List Char} {c : Char} (n : Nat) (some : w ≠ [])
    (whole : ∀ d ∈ w, isBreak d = false) (stops : isBreak c = true) :
    firstWord (List.replicate n ' ' ++ (w ++ c :: rest)) = (w, c :: rest) := by
  have trimmed : (List.replicate n ' ' ++ (w ++ c :: rest)).dropWhile (· == ' ') =
      w ++ c :: rest := by
    rw [List.dropWhile_append_of_pos (by simp)]
    cases w with
    | nil => exact absurd rfl some
    | cons d w =>
      have here := whole d (by simp)
      have other : (d == ' ') = false := (Bool.or_eq_false_iff.mp here).1
      simp [other]
  have inside : ∀ d ∈ w, (!isBreak d) = true := fun d member => by simp [whole d member]
  rw [firstWord, trimmed, List.takeWhile_append_of_pos inside, List.dropWhile_append_of_pos inside]
  simp [stops]

/-- Whether a text is read as one word when it stands behind a type. -/
def isLabel (s : String) : Bool :=
  !s.toList.isEmpty && s.toList.all fun c => isPlain c && !isBreak c

theorem isLabel_iff {s : String} : isLabel s = true ↔
    s.toList ≠ [] ∧ isPlainText s = true ∧ ∀ c ∈ s.toList, isBreak c = false := by
  simp only [isLabel, isPlainText, Bool.and_eq_true, Bool.not_eq_true', List.isEmpty_eq_false_iff,
    List.all_eq_true, forall_and]

/-- Labels may be made of parts of words and signs. -/
theorem isLabel_of_chars {s : String} (some : s.toList ≠ [])
    (chars : ∀ c ∈ s.toList, isWordPart c = true ∨ c = '-') : isLabel s = true := by
  have each : ∀ c ∈ s.toList, isPlain c = true ∧ isBreak c = false := by
    intro c member
    rcases chars c member with part | rfl
    · refine ⟨isPlain_of_isWordPart part, ?_⟩
      cases stops : isBreak c with
      | false => rfl
      | true =>
        rcases Bool.or_eq_true_iff.mp stops with blank | mark
        · rw [beq_iff_eq.mp blank] at part
          cases part
        · rw [beq_iff_eq.mp mark] at part
          cases part
    · exact ⟨rfl, rfl⟩
  exact isLabel_iff.mpr ⟨some, List.all_eq_true.mpr fun c member => (each c member).1,
    fun c member => (each c member).2⟩

/-- A line that begins with no qualifier declares what is behind its first word, if that is a type.
-/
theorem declared?_eq {line rest : List Char} {w : String}
    (first : firstWord line = (w.toList, rest)) (unqualifies : w ∉ qualifierNames) :
    declared? line = if w ∈ typeNames then some (String.ofList (firstWord rest).1) else none := by
  have same : unqualified line = line := by
    rw [unqualified, first, String.ofList_toList, if_neg unqualifies]
  simp only [declared?, same, first, String.ofList_toList]

/-- A definition declares its name. -/
theorem declared?_definition {type name : String} (known : type ∈ typeNames)
    (label : isLabel name = true) (rest : List Char) :
    declared? ((Term.indentation 1 ++ type ++ " " ++ name ++ " ").toList ++ rest) =
      some name := by
  obtain ⟨nonempty, -, whole⟩ := isLabel_iff.mp label
  have words : ∀ type ∈ typeNames, isLabel type = true ∧ type ∉ qualifierNames := by decide
  obtain ⟨typeLabel, unqualifies⟩ := words type known
  obtain ⟨typeSome, -, typeWhole⟩ := isLabel_iff.mp typeLabel
  have line : (Term.indentation 1 ++ type ++ " " ++ name ++ " ").toList ++ rest =
      List.replicate 4 ' ' ++ (type.toList ++ ' ' :: (name.toList ++ ' ' :: rest)) := by
    simp [Term.indentation]
  have second : firstWord (' ' :: (name.toList ++ ' ' :: rest)) = (name.toList, ' ' :: rest) :=
    firstWord_eq 1 nonempty whole rfl
  rw [line, declared?_eq (firstWord_eq 4 typeSome typeWhole rfl) unqualifies, if_pos known, second,
    String.ofList_toList]

/-- The commit statement declares nothing. -/
theorem declared?_commit (target : Target) (rest : List Char) :
    declared? ((Term.indentation 1 ++ target.outputName ++ " ").toList ++ rest) = none := by
  have word : isLabel target.outputName = true ∧ target.outputName ∉ qualifierNames ∧
      target.outputName ∉ typeNames := by
    cases target <;> decide
  obtain ⟨label, unqualifies, untyped⟩ := word
  obtain ⟨some, -, whole⟩ := isLabel_iff.mp label
  have line : (Term.indentation 1 ++ target.outputName ++ " ").toList ++ rest =
      List.replicate 4 ' ' ++ (target.outputName.toList ++ ' ' :: rest) := by
    simp [Term.indentation]
  rw [line, declared?_eq (firstWord_eq 4 some whole rfl) unqualifies, if_neg untyped]

/-- The names that a source declares before the program. -/
def preambleNames : Target → List String
  | .webgl => [coordinateName, resolutionName, videoName]
  | .opengl33 => [coordinateName, Target.outputName .opengl33, resolutionName, videoName]

/-- The lines of a source around the body of the program. -/
theorem frame_plain (target : Target) :
    ∀ line ∈ target.preamble ++ ["", "void main() \x7b"] ++ ["\x7d"], isPlainText line = true := by
  cases target <;> decide

theorem newline_not_mem {s : String} (plain : isPlainText s = true) : '\n' ∉ s.toList := by
  intro member
  have := List.all_eq_true.mp plain _ member
  simp [isPlain] at this

/-- The lines of a source are plain if those of the body are. -/
theorem exists_lines {target : Target} {p : Program} {body : List String} {text : String}
    (made : p.body target = .ok body) (plain : ∀ line ∈ body, isPlainText line = true)
    (source : p.source target = .ok text) :
    ∃ lines, text = "\n".intercalate lines ∧ lines ≠ [] ∧
      (∀ line ∈ lines, isPlainText line = true) ∧
      lines.filterMap (fun line => declared? line.toList) =
        preambleNames target ++ body.filterMap fun line => declared? line.toList := by
  rw [Program.source, made, Outcome.ok_bind] at source
  cases source
  refine ⟨_, rfl, by simp, fun line member => ?_, ?_⟩
  · have around := frame_plain target line
    simp only [List.mem_append] at member around
    rcases member with (before | here) | after
    · exact around (.inl before)
    · exact plain line here
    · exact around (.inr after)
  · have front : (target.preamble ++ ["", "void main() \x7b"]).filterMap
        (fun line => declared? line.toList) = preambleNames target := by
      cases target <;> decide
    have back : ["\x7d"].filterMap (fun line => declared? line.toList) = [] := by decide
    simp only [List.filterMap_append] at front ⊢
    rw [front, back, List.append_nil]

/-- A source of plain lines declares what they declare. -/
theorem declared_intercalate {lines : List String} (some : lines ≠ [])
    (plain : ∀ line ∈ lines, isPlainText line = true) :
    declared ("\n".intercalate lines) = lines.filterMap fun line => declared? line.toList := by
  have whole : ∀ line ∈ lines.map String.toList, '\n' ∉ line := by
    intro line member
    obtain ⟨s, inside, rfl⟩ := List.mem_map.mp member
    exact newline_not_mem (plain s inside)
  rw [declared, String.toList_intercalate, show "\n".toList = ['\n'] from rfl,
    List.splitOn_intercalate '\n' whole (by simpa using some), List.filterMap_map,
    Function.comp_def]

theorem isPlain_or_newline {lines : List String} (plain : ∀ line ∈ lines, isPlainText line = true) :
    ∀ c ∈ ("\n".intercalate lines).toList, isPlain c = true ∨ c = '\n' := by
  induction lines with
  | nil => simp
  | cons line lines ih =>
    have here : ∀ c ∈ line.toList, isPlain c = true := List.all_eq_true.mp (plain line (by simp))
    have there := ih fun s member => plain s (List.mem_cons_of_mem line member)
    cases lines with
    | nil =>
      rw [String.intercalate_singleton]
      exact fun c member => .inl (here c member)
    | cons next lines =>
      intro c member
      rw [String.intercalate_cons_cons, String.toList_append, String.toList_append] at member
      rcases List.mem_append.mp member with member | later
      · rcases List.mem_append.mp member with early | ends
        · exact .inl (here c early)
        · exact .inr (List.mem_singleton.mp ends)
      · exact there c later

end Lines

end ShaderFlow.Reading

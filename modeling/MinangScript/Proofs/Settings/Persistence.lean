import MinangScript.Proofs.Json.Reading
import MinangScript.Settings.Reader

/-! # Settings that are kept

Settings are written as an indented object with one line for each of them. Reading the lines one
after the other fills in one setting after the other, until none of the defaults is left. So what
was written is what is read again, whatever texts the settings hold.
-/

namespace MinangScript

namespace Json

/-- Whether a document has no parts. -/
def isFlat : Json → Bool
  | array _ | object _ => false
  | _ => true

/-- A property on a line of its own, and what stands in front of it. -/
def lineChars (first : Bool) (field : String × Json) : List Char :=
  comma first ++ ['\n', ' ', ' '] ++ quoted field.1 ++ ':' :: ' ' :: field.2.chars

/-- What has no parts is written in one way only. -/
theorem toList_writePretty {j : Json} (flat : j.isFlat = true) (depth : Nat) (out : String) :
    (writePretty depth out j).toList = out.toList ++ j.chars := by
  cases j with
  | array | object => cases flat
  | _ => simp [writePretty, chars, compact, writeCompact]

theorem toList_writePrettyFields {fields : List (String × Json)}
    (flat : ∀ field ∈ fields, field.2.isFlat = true) (out : String) (first : Bool) :
    (writePrettyFields 1 out first fields).toList = out.toList ++ series lineChars first fields := by
  induction fields generalizing out first with
  | nil => simp [writePrettyFields, series]
  | cons field rest ih =>
    obtain ⟨key, value⟩ := field
    obtain ⟨one, others⟩ := List.forall_mem_cons.mp flat
    rw [writePrettyFields, ih others, toList_writePretty one]
    simp [series, lineChars, newLine, toList_comma, toList_stringText, List.replicate]

end Json

namespace Settings

open Json (JsonReader comma lineChars series)
open Json.JsonReader
open Reader (iterate)

theorem Field.isFlat_toJson (s : Settings) (f : Field) : (f.toJson s).isFlat = true := by
  cases f <;> rfl

/-- The settings as properties. -/
def fields (s : Settings) : List (String × Json) :=
  Field.all.map fun f => (f.key, f.toJson s)

theorem toList_fileText (s : Settings) :
    s.fileText.toList = '\x7b' :: (series lineChars true s.fields ++ ['\n', '\x7d', '\n']) := by
  have flat : ∀ field ∈ s.fields, field.2.isFlat = true := by
    intro field member
    obtain ⟨f, -, rfl⟩ := List.mem_map.mp member
    exact f.isFlat_toJson s
  have lines := Json.toList_writePrettyFields flat "\x7b" true
  have object : s.text =
      Json.newLine 0 (Json.writePrettyFields 1 "\x7b" true s.fields) ++ "\x7d" := by
    rw [text, Json.pretty, toJson, Json.writePretty]
    · rfl
    · exact List.cons_ne_nil _ _
  rw [fileText, object]
  simp [Json.newLine, lines]

/-- Settings with one of them taken from other settings. -/
def Field.copy (s d : Settings) : Field → Settings
  | .language => { d with language := s.language }
  | .version => { d with version := s.version }
  | .culturalValidation => { d with culturalValidation := s.culturalValidation }
  | .autoFormat => { d with autoFormat := s.autoFormat }
  | .logLevel => { d with logLevel := s.logLevel }
  | .scoping => { d with scoping := s.scoping }
  | .maxCallDepth => { d with maxCallDepth := s.maxCallDepth }

section Readers

variable {rounds : Nat} {rest : List Char}

theorem reads_stringValue {before : List Char} (spaces : ∀ b ∈ before, isSpace b = true)
    {text : String} (short : text.length < rounds) :
    Reads (stringValue rounds) (before ++ Json.quoted text ++ rest) text rest := by
  rw [List.append_assoc, Json.quoted, List.cons_append, List.append_assoc]
  apply (reads_nextSolid_behind spaces (by decide)).bind
  simp only [if_true]
  exact reads_skip.bind (reads_stringRest short rest)

/-- A string as it stands behind a colon. -/
theorem reads_stringField {text : String} (short : (Json.string text).chars.length < rounds) :
    Reads (stringValue rounds) (' ' :: (Json.string text).chars ++ rest) text rest := by
  rw [Json.chars_string] at short ⊢
  have shorter := Json.length_lt_quoted text
  have spaces : ∀ b ∈ [' '], isSpace b = true := List.forall_mem_singleton.mpr rfl
  exact reads_stringValue spaces (by omega)

theorem reads_boolField (value : Bool) :
    Reads boolValue (' ' :: (Json.bool value).chars ++ rest) value rest := by
  have spaces : ∀ b ∈ [' '], isSpace b = true := List.forall_mem_singleton.mpr rfl
  cases value with
  | true =>
    apply (reads_nextSolid_behind spaces (by decide)).bind
    exact reads_skip.bind ((reads_word _).bind reads_pure)
  | false =>
    apply (reads_nextSolid_behind spaces (by decide)).bind
    exact reads_skip.bind ((reads_word _).bind reads_pure)

theorem reads_wordField (n : UInt32) (ends : StopsNumber rest) :
    Reads wordValue (' ' :: (Json.integer n.toNat).chars ++ rest) n rest := by
  have spaces : ∀ b ∈ [' '], isSpace b = true := List.forall_mem_singleton.mpr rfl
  have small : n.toNat < UInt32.size := n.toNat_lt_size
  have size : UInt32.size = 2 ^ 32 := rfl
  have number := reads_number (n := n.toNat) (by omega) (by omega) ends
  obtain ⟨c, tail, written, opens⟩ := chars_integer_opens n.toNat
  rw [written] at number ⊢
  apply (reads_nextSolid_behind spaces (solid_of_number opens)).bind
  show Reads (if c = '-' ∨ c.isDigit = true then _ else _) _ _ _
  rw [if_pos opens]
  apply number.bind
  simp only [Int.natCast_nonneg, Int.ofNat_lt, small, and_self, if_true, Int.toNat_natCast,
    UInt32.ofNat_toNat]
  exact reads_pure

theorem Scoping.ofName?_name (scoping : Scoping) : Scoping.ofName? scoping.name = some scoping := by
  cases scoping <;> rfl

theorem reads_scopingField (scoping : Scoping)
    (short : (Json.string scoping.name).chars.length < rounds) :
    Reads (scopingValue rounds) (' ' :: (Json.string scoping.name).chars ++ rest) scoping rest := by
  rw [Json.chars_string] at short ⊢
  have shorter := Json.length_lt_quoted scoping.name
  have spaces : ∀ b ∈ [' '], isSpace b = true := List.forall_mem_singleton.mpr rfl
  apply (reads_nextSolid_behind spaces (by decide)).bind
  rw [if_neg (by decide)]
  have nothing : ∀ b ∈ ([] : List Char), isSpace b = true := List.forall_mem_nil _
  apply (reads_stringValue nothing (by omega)).bind
  rw [Scoping.ofName?_name]
  exact reads_pure

theorem reads_field {s : Settings} (d : Settings) {f : Field}
    (short : (f.toJson s).chars.length < rounds) (ends : StopsNumber rest) :
    Reads (f.read rounds d) (' ' :: (f.toJson s).chars ++ rest) (f.copy s d) rest := by
  cases f with
  | language | version | logLevel => exact (reads_stringField short).bind reads_pure
  | culturalValidation | autoFormat => exact (reads_boolField _).bind reads_pure
  | scoping => exact (reads_scopingField s.scoping short).bind reads_pure
  | maxCallDepth => exact (reads_wordField s.maxCallDepth ends).bind reads_pure

theorem Field.ofKey?_key (f : Field) : Field.ofKey? f.key = some f := by
  cases f <;> rfl

/-- What has been read after one more setting. -/
def Draft.fill (s : Settings) (d : Draft) (f : Field) : Draft :=
  ⟨false, f :: d.seen, f.copy s d.settings⟩

theorem reads_property {s : Settings} {d : Draft} {f : Field} (new : f ∉ d.seen)
    (short : f.key.length + (f.toJson s).chars.length < rounds) (ends : StopsNumber rest) :
    Reads (property rounds d) (Json.quoted f.key ++ (':' :: ' ' :: (f.toJson s).chars ++ rest))
      (d.fill s f) rest := by
  have nothing : ∀ b ∈ ([] : List Char), isSpace b = true := List.forall_mem_nil _
  apply (reads_stringValue nothing (by omega)).bind
  rw [Field.ofKey?_key]
  show Reads (if f ∈ d.seen then _ else _) _ _ _
  rw [if_neg new]
  apply (reads_colon _).bind
  exact (reads_field d.settings (by omega) ends).bind reads_pure

/-- One round of reading the properties of an object. -/
def readNext (rounds : Nat) (d : Draft) : JsonReader (Draft × Bool) := do
  if ← nextKey d.first then return (← property rounds d, true)
  else return (d, false)

theorem reads_line {s : Settings} {d : Draft} {f : Field} (new : f ∉ d.seen)
    (short : f.key.length + (f.toJson s).chars.length < rounds) (ends : StopsNumber rest) :
    Reads (readNext rounds d) (lineChars d.first (f.key, f.toJson s) ++ rest) (d.fill s f, true)
      rest := by
  have indent : ∀ b ∈ ['\n', ' ', ' '], isSpace b = true := by simp [isSpace]
  rw [lineChars, List.append_assoc, List.append_assoc]
  apply (reads_nextKey_behind indent d.first _).bind
  exact (reads_property new short ends).bind reads_pure

theorem reads_lastLine (d : Draft) :
    Reads (readNext rounds d) ('\n' :: '\x7d' :: rest) (d, false) rest := by
  have feed : ∀ b ∈ ['\n'], isSpace b = true := List.forall_mem_singleton.mpr rfl
  have ended : Reads (nextKey d.first) ('\n' :: '\x7d' :: rest) false rest :=
    (reads_nextSolid_behind feed (by decide)).bind (reads_skip.bind reads_pure)
  exact ended.bind reads_pure

theorem stopsNumber_cons {c : Char} (mark : c = ',' ∨ c = '\n') : StopsNumber (c :: rest) := by
  rintro _ ⟨⟩
  rcases mark with rfl | rfl <;> decide

/-- Behind a line stands the next one, or the line that ends the object. -/
theorem stopsNumber_lines (fields : List (String × Json)) :
    StopsNumber (series lineChars false fields ++ '\n' :: rest) := by
  cases fields with
  | nil => exact stopsNumber_cons (.inr rfl)
  | cons field fields => exact stopsNumber_cons (.inl rfl)

/-- Every line fills in one setting. -/
theorem reads_lines {s : Settings} {fs : List Field} (single : fs.Nodup) {d : Draft}
    (new : ∀ f ∈ fs, f ∉ d.seen)
    (short : ∀ f ∈ fs, f.key.length + (f.toJson s).chars.length < rounds)
    {turns : Nat} (enough : fs.length < turns) :
    Reads (iterate (readNext rounds) turns d)
      (series lineChars d.first (fs.map fun f => (f.key, f.toJson s)) ++ '\n' :: '\x7d' :: rest)
      (fs.foldl (Draft.fill s) d) rest := by
  induction fs generalizing d turns with
  | nil =>
    cases turns with
    | zero => cases enough
    | succ turns => exact (reads_lastLine d).bind reads_pure
  | cons f fs ih =>
    cases turns with
    | zero => cases enough
    | succ turns =>
      obtain ⟨unlike, single⟩ := List.nodup_cons.mp single
      obtain ⟨newOne, new⟩ := List.forall_mem_cons.mp new
      obtain ⟨shortOne, short⟩ := List.forall_mem_cons.mp short
      have later : ∀ g ∈ fs, g ∉ (d.fill s f).seen := by
        intro g member seen
        obtain rfl | seen := List.mem_cons.mp seen
        · exact unlike member
        · exact new g member seen
      rw [List.map_cons, series, List.append_assoc]
      apply (reads_line newOne shortOne (stopsNumber_lines _)).bind
      exact ih single later short (Nat.lt_of_succ_lt_succ enough)

/-- One setting after the other, until none of the defaults is left. -/
theorem fill_all (s : Settings) : (Field.all.foldl (Draft.fill s) {}).settings = s := rfl

theorem reads_value {s : Settings} (enough : s.fileText.length < rounds) :
    Reads (value rounds) s.fileText.toList s ['\n'] := by
  have size : s.fileText.length = (series lineChars true s.fields).length + 4 := by
    rw [← String.length_toList, toList_fileText]
    simp
  have short : ∀ f ∈ Field.all, f.key.length + (f.toJson s).chars.length < rounds := by
    intro f member
    have inside : (f.key, f.toJson s) ∈ s.fields := List.mem_map.mpr ⟨f, member, rfl⟩
    obtain ⟨first, le⟩ := Json.text_le_series lineChars inside true
    have key := Json.length_lt_quoted f.key
    simp only [lineChars, List.length_append, List.length_cons] at le
    omega
  have several : Field.all.length < rounds := by
    have least : s.fields.length ≤ (series lineChars true s.fields).length :=
      Json.length_le_series (fun field _ first => by simp [lineChars]) true
    have count : s.fields.length = Field.all.length := List.length_map _
    omega
  have lines : Reads (iterate (readNext rounds) rounds {})
      (series lineChars true s.fields ++ ['\n', '\x7d', '\n']) (Field.all.foldl (Draft.fill s) {})
      ['\n'] :=
    reads_lines (by decide) (fun f _ => List.not_mem_nil) short several
  rw [toList_fileText]
  apply (reads_nextSolid (by decide)).bind
  apply reads_skip.bind
  apply lines.bind
  rw [fill_all]
  exact reads_pure

end Readers

/-- Behind the value may stand a line feed, as at the end of a file. -/
theorem read_of_reads {s : Settings} {text : String}
    (reads : Reads (value (text.toList.length + 1)) text.toList s ['\n']) : read text = .ok s := by
  have finish : Reads finish ['\n'] () [] :=
    ((reads_takeWhile _ _).bind reads_peek).bind reads_pure
  have all : Reads (do
      let settings ← value (text.toList.length + 1)
      Json.JsonReader.finish
      return settings) text.toList s [] :=
    reads.bind (finish.bind reads_pure)
  obtain ⟨line, column, result⟩ := all 1 0
  exact congrArg (fun outcome => outcome.map (·.1)) result

theorem load_fileText (s : Settings) : load (some s.fileText) = s := by
  have taken : read s.fileText = .ok s :=
    read_of_reads (reads_value (by rw [String.length_toList]; exact Nat.lt_succ_self _))
  rw [load, taken]
  rfl

/-! ## Settings that change -/

/-- The settings after an attempt to set the language, which need not succeed. -/
def attempt (s : Settings) (language : String) : Settings :=
  (s.setLanguage language).toOption.getD s

theorem fromUTF8?_toUTF8 (text : String) : String.fromUTF8? text.toUTF8 = some text :=
  dif_pos text.isValidUTF8

/-- All settings are read again as they were written. Whatever bytes a file holds, and whatever
    languages are then set, the settings are the same after they were saved and loaded again, and
    saving them once more writes the same text. An attempt to set a language changes the language
    only, and only if it succeeds. -/
theorem saved_settings_are_loaded_again :
    (∀ s : Settings, load (some s.fileText) = s) ∧
    (∀ (content : Option ByteArray) (attempts : List String),
      let s := attempts.foldl attempt (load (content.bind String.fromUTF8?))
      let again := load (String.fromUTF8? s.fileText.toUTF8)
      again = s ∧ again.fileText = s.fileText) ∧
    ∀ (s : Settings) (language : String),
      s.attempt language = { s with language := (s.attempt language).language } ∧
      ((s.setLanguage language).isOk = true → (s.attempt language).language = language) ∧
      ((s.setLanguage language).isOk = false → s.attempt language = s) := by
  refine ⟨load_fileText, fun content attempts => ?_, fun s language => ?_⟩
  · intro s again
    have same : again = s := by
      rw [show again = load (String.fromUTF8? s.fileText.toUTF8) from rfl, fromUTF8?_toUTF8]
      exact load_fileText s
    exact ⟨same, congrArg fileText same⟩
  · by_cases known : language ∈ languages
    · have set : s.setLanguage language = .ok { s with language } := if_pos known
      rw [attempt, set]
      exact ⟨rfl, fun _ => rfl, nofun⟩
    · have refused : s.setLanguage language = .error ⟨language⟩ := if_neg known
      rw [attempt, refused]
      exact ⟨rfl, nofun, fun _ => rfl⟩

end Settings

end MinangScript

import MinangScript.Journal
import MinangScript.Json.Basic
import MinangScript.Machine.Evaluator
import MinangScript.Version

/-! # Settings

The settings of a user are kept as a JSON object with a property for each of them, always in the
same order. A language is accepted only if it is one of a few; other settings are whatever was read.
-/

namespace MinangScript

structure Settings where
  /-- The language of messages. -/
  language : String := "auto"
  /-- The version that wrote the settings. -/
  version : String := MinangScript.version
  culturalValidation : Bool := true
  autoFormat : Bool := false
  /-- The name of the level of diagnosis. -/
  logLevel : String := "warn"
  /-- How calls see variables. -/
  scoping : Scoping := .dynamic
  /-- How deep calls may nest. -/
  maxCallDepth : UInt32 := UInt32.ofNat Machine.defaultCallLimit
  deriving Repr, DecidableEq, Inhabited

/-- The name of a way of scoping in settings. -/
def Scoping.name : Scoping → String
  | dynamic => "dynamic"
  | lexical => "lexical"

/-- The way of scoping of a given name. -/
def Scoping.ofName? (name : String) : Option Scoping :=
  [dynamic, lexical].find? (·.name == name)

namespace Settings

/-- The languages that can be set. -/
def languages : List String := ["en", "id", "auto"]

/-- A language that cannot be set. -/
structure UnsupportedLanguage where
  language : String
  deriving Repr, DecidableEq

def UnsupportedLanguage.message (e : UnsupportedLanguage) : String :=
  "unsupported language '" ++ e.language ++ "' (expected one of: "
    ++ String.intercalate ", " languages ++ ")"

def setLanguage (s : Settings) (language : String) : Except UnsupportedLanguage Settings :=
  if language ∈ languages then .ok { s with language } else .error ⟨language⟩

/-- The level of diagnosis; a name that is none stands for warnings. -/
def level (s : Settings) : LogLevel :=
  (LogLevel.ofName? s.logLevel).getD .warn

/-- One of the settings. -/
inductive Field where
  | language | version | culturalValidation | autoFormat | logLevel | scoping | maxCallDepth
  deriving Repr, DecidableEq

namespace Field

/-- The settings in the order in which they are kept. -/
def all : List Field :=
  [language, version, culturalValidation, autoFormat, logLevel, scoping, maxCallDepth]

/-- The name of the property for a setting. -/
def key : Field → String
  | language => "language"
  | version => "version"
  | culturalValidation => "culturalValidation"
  | autoFormat => "autoFormat"
  | logLevel => "logLevel"
  | scoping => "scoping"
  | maxCallDepth => "maxCallDepth"

/-- The setting whose property has the given name. -/
def ofKey? (key : String) : Option Field :=
  all.find? (·.key == key)

def toJson (s : Settings) : Field → Json
  | language => .string s.language
  | version => .string s.version
  | culturalValidation => .bool s.culturalValidation
  | autoFormat => .bool s.autoFormat
  | logLevel => .string s.logLevel
  | scoping => .string s.scoping.name
  | maxCallDepth => .integer s.maxCallDepth.toNat

end Field

def toJson (s : Settings) : Json :=
  .object (Field.all.map fun f => (f.key, f.toJson s))

def text (s : Settings) : String :=
  s.toJson.pretty

/-- The content of the file in which settings are kept. -/
def fileText (s : Settings) : String :=
  s.text ++ "\n"

end Settings

end MinangScript

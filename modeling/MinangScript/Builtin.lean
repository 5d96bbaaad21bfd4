import MinangScript.Journal
import MinangScript.Value.Json
import MinangScript.Value.Table

/-! # Built-in functions

The functions that exist before any program runs, and the constants beside them. A built-in
function looks at its arguments, answers with a value and adds entries to the journal; services
that need more than that are not available and say so.
-/

namespace MinangScript

inductive Builtin where
  | print | display
  | printError | printReminder | printDebug | printInfo | printWarning | printTable
  | writeJson | readJson
  | post | store | load
  | delay | repeatEvery
  deriving Repr, DecidableEq, Inhabited

namespace Builtin

def all : List Builtin :=
  [print, display, printError, printReminder, printDebug, printInfo, printWarning, printTable,
   writeJson, readJson, post, store, load, delay, repeatEvery]

/-- The name under which a built-in function is called. A dotted name is called as a method. -/
def name : Builtin → String
  | print => "cetak"
  | display => "tampilkan"
  | printError => "cetak.rusak"
  | printReminder => "cetak.ingek"
  | printDebug => "cetak.urai"
  | printInfo => "cetak.pesan"
  | printWarning => "cetak.peringatan"
  | printTable => "cetak.tabel"
  | writeJson => "jsonKe"
  | readJson => "jsonDari"
  | post => "kirimPost"
  | store => "simpan"
  | load => "ambil"
  | delay => "tungguDetik"
  | repeatEvery => "ulangi"

/-- How many arguments a built-in function takes. -/
def arity : Builtin → Nat
  | post | store | delay | repeatEvery => 2
  | _ => 1

def ofName? (name : String) : Option Builtin :=
  all.find? (·.name == name)

/-- What a call gives: a value, the entries it adds to the journal in order, and the first tag that
is still free. -/
structure Reply where
  value : Value
  entries : List Entry
  tag : Nat
  deriving Repr

/-- The texts of arguments with a space between them. -/
def joinedText (args : List Value) : String :=
  String.intercalate " " (args.map Value.text)

/-- Prints a line and answers with nothing. -/
def say (tag : Nat) (channel : Channel) (text : String) : Reply :=
  ⟨.null, [.printed channel text], tag⟩

/-- Calls a built-in function, when tags from `tag` on are free. The number of arguments was
checked before. -/
def call (b : Builtin) (args : List Value) (tag : Nat) : Reply :=
  let text := joinedText args
  match b with
  | print | display => say tag .log text
  | printError => say tag .error ("❌ RUSAK: " ++ text)
  | printReminder => say tag .warn ("⚠️ INGEK: " ++ text)
  | printDebug => say tag .debug ("🔍 URAI: " ++ text)
  | printInfo => say tag .info ("📝 PESAN: " ++ text)
  | printWarning => say tag .warn ("⚠️ PERINGATAN: " ++ text)
  | printTable =>
    match args with
    | .array t items :: _ => say tag .table (Table.render (.array t items))
    | .object t fields :: _ => say tag .table (Table.render (.object t fields))
    | _ => say tag .log text
  | writeJson =>
    match args.head?.bind Value.toJson? with
    | some j => ⟨.string j.compact, [], tag⟩
    | none => ⟨.null, [], tag⟩
  | readJson =>
    match Json.read ((args.head?.map Value.text).getD "") with
    | .ok j =>
      let (value, next) := Value.ofJson tag j
      ⟨value, [], next⟩
    | .error e => say tag .error ("❌ JSON parse error: " ++ e.message)
  | post => say tag .warn "⚠️ Fetch API not available"
  | store => ⟨.bool false, [.printed .warn "⚠️ LocalStorage not available"], tag⟩
  | load => say tag .warn "⚠️ LocalStorage not available"
  | delay | repeatEvery =>
    ⟨.null, [.noted .timer, .printed .warn "⚠️ Timer functions not available"], tag⟩

/-- The constants that exist before any program runs. -/
def constants : List (String × Value) :=
  [("PI", .number (Float.ofBits 0x400921fb54442d18)),
   ("EULER", .number (Float.ofBits 0x4005bf0a8b145769))]

end Builtin

end MinangScript

import MinangScript.JavaScript.Emit

/-! # Programs that stand alone

Two ways to make emitted code complete: as a module that keeps its names to itself, and after a
library that defines the built-in functions for a JavaScript engine.
-/

namespace MinangScript

namespace JavaScript

def defaultModuleName : String := "MinangModule"

/-- The lines of the library of built-in functions. -/
def helperLines : List String :=
  ["// MinangScript Runtime Helpers",
   "const cetak = function (...args) \x7b console.log(...args); \x7d;",
   "cetak.rusak = function (...args) \x7b console.error('❌ RUSAK:', ...args); \x7d;",
   "cetak.ingek = function (...args) \x7b console.warn('⚠️ INGEK:', ...args); \x7d;",
   "cetak.urai = function (...args) \x7b console.debug('🔍 URAI:', ...args); \x7d;",
   "cetak.pesan = function (...args) \x7b console.info('📝 PESAN:', ...args); \x7d;",
   "cetak.peringatan = function (...args) \x7b console.warn('⚠️ PERINGATAN:', ...args); \x7d;",
   "cetak.tabel = function (data) \x7b console.table(data); \x7d;",
   "const tampilkan = function (...args) \x7b console.log(...args); \x7d;",
   "",
   "const PI = Math.PI;",
   "const EULER = Math.E;",
   "",
   "const jsonKe = function (value) \x7b",
   "    try \x7b",
   "        return JSON.stringify(value);",
   "    \x7d catch (error) \x7b",
   "        console.error('❌ JSON stringify error:', error.message);",
   "        return null;",
   "    \x7d",
   "\x7d;",
   "const jsonDari = function (text) \x7b",
   "    try \x7b",
   "        return JSON.parse(String(text));",
   "    \x7d catch (error) \x7b",
   "        console.error('❌ JSON parse error:', error.message);",
   "        return null;",
   "    \x7d",
   "\x7d;",
   "",
   "const kirimPost = async function (url, data) \x7b",
   "    if (typeof fetch === 'undefined') \x7b",
   "        console.warn('⚠️ Fetch API not available');",
   "        return null;",
   "    \x7d",
   "    try \x7b",
   "        const response = await fetch(String(url), \x7b",
   "            method: 'POST',",
   "            headers: \x7b 'Content-Type': 'application/json' \x7d,",
   "            body: JSON.stringify(data)",
   "        \x7d);",
   "        return await response.json();",
   "    \x7d catch (error) \x7b",
   "        console.error('❌ POST error:', error.message);",
   "        return null;",
   "    \x7d",
   "\x7d;",
   "const simpan = function (key, value) \x7b",
   "    if (typeof localStorage === 'undefined') \x7b",
   "        console.warn('⚠️ LocalStorage not available');",
   "        return false;",
   "    \x7d",
   "    localStorage.setItem(String(key), String(value));",
   "    return true;",
   "\x7d;",
   "const ambil = function (key) \x7b",
   "    if (typeof localStorage === 'undefined') \x7b",
   "        console.warn('⚠️ LocalStorage not available');",
   "        return null;",
   "    \x7d",
   "    return localStorage.getItem(String(key));",
   "\x7d;",
   "const tungguDetik = function (callback, delay) \x7b",
   "    if (typeof setTimeout === 'undefined') \x7b",
   "        console.warn('⚠️ Timer functions not available');",
   "        return null;",
   "    \x7d",
   "    return setTimeout(callback, delay * 1000);",
   "\x7d;",
   "const ulangi = function (callback, interval) \x7b",
   "    if (typeof setInterval === 'undefined') \x7b",
   "        console.warn('⚠️ Timer functions not available');",
   "        return null;",
   "    \x7d",
   "    return setInterval(callback, interval * 1000);",
   "\x7d;",
   "",
   "const MinangRuntime = \x7b",
   "    // collaborative processing",
   "    gotongRoyong: function (tasks, callback) \x7b",
   "        return Promise.all(tasks.map(task =>",
   "            typeof task === 'function' ? task() : task",
   "        )).then(callback);",
   "    \x7d,",
   "",
   "    // majority vote across voters",
   "    musyawarah: function (options, voters) \x7b",
   "        const votes = voters.map(voter => voter(options));",
   "        const consensus = votes.reduce((acc, vote) => \x7b",
   "            acc[vote] = (acc[vote] || 0) + 1;",
   "            return acc;",
   "        \x7d, \x7b\x7d);",
   "        return Object.keys(consensus).reduce((a, b) =>",
   "            consensus[a] > consensus[b] ? a : b",
   "        );",
   "    \x7d,",
   "",
   "    // filter by predicate or substring",
   "    alamTakambang: function (data, pattern) \x7b",
   "        return data.filter(item =>",
   "            typeof pattern === 'function' ? pattern(item) : item.includes(pattern)",
   "        );",
   "    \x7d",
   "\x7d;"]

def helperLibrary : String :=
  String.join (helperLines.map (· ++ "\n"))

/-- One line of a module: indented by four spaces unless it is empty. -/
def moduleLine (line : String) : String :=
  (if line.isEmpty then "" else "    " ++ line) ++ "\n"

/-- A program as a strict module with the given name. -/
def strictModule (p : Program) (name : String) : Except UnsupportedNode String := do
  let code ← program p
  return "// Generated from MinangScript\n// Module: " ++ name
    ++ "\n\n(function() \x7b\n    'use strict';\n\n"
    ++ String.join ((lines code).map moduleLine) ++ "\n\x7d)();\n"

/-- A program after the library of built-in functions. -/
def withHelpers (p : Program) : Except UnsupportedNode String := do
  let code ← program p
  return helperLibrary ++ "\n// Generated MinangScript Code\n" ++ code ++ "\n"

end JavaScript

end MinangScript

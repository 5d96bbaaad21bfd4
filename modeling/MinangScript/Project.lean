import MinangScript.Disk.Path
import MinangScript.Text.Replace
import MinangScript.Version

/-! # New projects

A new project is a directory with one program, which greets. The program is made from a pattern, in
which first the name of the project is filled in and then the version.
-/

namespace MinangScript

namespace Project

/-- The name of the program in the directory of a project. -/
def mainName : String := "main.minang"

/-- The name of a project whose directory has none. -/
def defaultName : String := "proyek"

/-- The place of the name in the pattern. -/
def nameMark : String := "\x7bproject\x7d"

/-- The place of the version in the pattern. -/
def versionMark : String := "\x7bversion\x7d"

/-- The pattern of the program. -/
def pattern : String :=
  "// Salamat datang di MinangScript!\n"
    ++ "\n"
    ++ "cetak \"Salamat datang ka \" + \"" ++ nameMark ++ "\"\n"
    ++ "\n"
    ++ "buek namo = \"MinangScript\"\n"
    ++ "ambiak versi = \"" ++ versionMark ++ "\"\n"
    ++ "tagak filosofi = \"Gotong Royong\"\n"
    ++ "\n"
    ++ "karojo sambutan(nama) \x7b\n"
    ++ "    jadi \"Salamat datang, \" + nama + \"! Mari bergotong royong.\"\n"
    ++ "\x7d\n"
    ++ "\n"
    ++ "cetak sambutan(namo)\n"

/-- The program of a project with the given name. -/
def sample (name : String) : String :=
  replaceAll (replaceAll pattern nameMark name) versionMark version

/-- The name of a project in the given directory. -/
def nameOf (directory : String) : String :=
  (Path.fileName? directory).getD defaultName

def mainPath (directory : String) : String :=
  Path.join directory mainName

end Project

end MinangScript

/-! # Words with a meaning of their own

Keywords take part in the grammar. Reserved words do not, but no name may be spelled like one.
Each has its spelling and the name that messages use for it.
-/

namespace MinangScript

/-- A word of the grammar. -/
inductive Keyword where
  | varWord | letWord | constWord
  | functionWord | returnWord
  | ifWord | elseWord | elseIfWord | whileWord | forWord | breakWord | continueWord
  | printWord | trueWord | falseWord | nullWord
  deriving Repr, DecidableEq, Inhabited

namespace Keyword

def all : List Keyword :=
  [varWord, letWord, constWord, functionWord, returnWord, ifWord, elseWord, elseIfWord, whileWord,
   forWord, breakWord, continueWord, printWord, trueWord, falseWord, nullWord]

def spelling : Keyword → String
  | varWord => "buek"
  | letWord => "ambiak"
  | constWord => "tagak"
  | functionWord => "karojo"
  | returnWord => "jadi"
  | ifWord => "kalau"
  | elseWord => "lain"
  | elseIfWord => "kalauLain"
  | whileWord => "selamo"
  | forWord => "untuak"
  | breakWord => "baronti"
  | continueWord => "lanjuik"
  | printWord => "cetak"
  | trueWord => "bana"
  | falseWord => "salah"
  | nullWord => "kosong"

/-- What messages call the keyword. -/
def name : Keyword → String
  | varWord => "VAR"
  | letWord => "LET"
  | constWord => "CONST"
  | functionWord => "FUNCTION"
  | returnWord => "RETURN"
  | ifWord => "IF"
  | elseWord => "ELSE"
  | elseIfWord => "ELSEIF"
  | whileWord => "WHILE"
  | forWord => "FOR"
  | breakWord => "BREAK"
  | continueWord => "CONTINUE"
  | printWord => "PRINT"
  | trueWord => "TRUE"
  | falseWord => "FALSE"
  | nullWord => "NULL"

def ofSpelling? (word : String) : Option Keyword :=
  all.find? (·.spelling == word)

end Keyword

/-- A word that is set aside: it is no name and has no grammar. -/
inductive Reserved where
  | tryWord | catchWord | finallyWord | throwWord | switchWord | caseWord | defaultWord
  | className | extendsWord | constructorWord | thisWord | staticWord | privateWord | publicWord
  | protectedWord | importWord | exportWord | async | await | yield | generator | array | object
  | stringType | numberType | booleanType | arrayLiteral | objectLiteral | document | element
  | selector | selectAll | create | append | remove | replace | listen | fetch | load | click
  | change | style | id | content | value | httpGet | httpPost | httpPut | httpDelete | json
  | form | input
  deriving Repr, DecidableEq, Inhabited

namespace Reserved

def all : List Reserved :=
  [tryWord, catchWord, finallyWord, throwWord, switchWord, caseWord, defaultWord, className,
   extendsWord, constructorWord, thisWord, staticWord, privateWord, publicWord, protectedWord,
   importWord, exportWord, async, await, yield, generator, array, object, stringType, numberType,
   booleanType, arrayLiteral, objectLiteral, document, element, selector, selectAll, create, append, remove,
   replace, listen, fetch, load, click, change, style, id, content, value, httpGet, httpPost,
   httpPut, httpDelete, json, form, input]

def spelling : Reserved → String
  | tryWord => "cubo"
  | catchWord => "tangkok"
  | finallyWord => "akhianyo"
  | throwWord => "lampaik"
  | switchWord => "piliah"
  | caseWord => "kasus"
  | defaultWord => "default"
  | className => "kelas"
  | extendsWord => "warisan"
  | constructorWord => "konstruktor"
  | thisWord => "ini"
  | staticWord => "statik"
  | privateWord => "privat"
  | publicWord => "publik"
  | protectedWord => "dilindungi"
  | importWord => "impor"
  | exportWord => "ekspor"
  | async => "async"
  | await => "tunggu"
  | yield => "yield"
  | generator => "generator"
  | array => "array"
  | object => "objek"
  | stringType => "string"
  | numberType => "angka"
  | booleanType => "boolean"
  | arrayLiteral => "kumpulan"
  | objectLiteral => "benda"
  | document => "dokumen"
  | element => "elemen"
  | selector => "cari"
  | selectAll => "pilihSemua"
  | create => "buat"
  | append => "tambah"
  | remove => "hapus"
  | replace => "ganti"
  | listen => "dengar"
  | fetch => "kirim"
  | load => "muat"
  | click => "klik"
  | change => "ubah"
  | style => "style"
  | id => "id"
  | content => "konten"
  | value => "nilai"
  | httpGet => "get"
  | httpPost => "post"
  | httpPut => "put"
  | httpDelete => "delete"
  | json => "json"
  | form => "form"
  | input => "input"

/-- What messages call the reserved word. -/
def name : Reserved → String
  | tryWord => "TRY"
  | catchWord => "CATCH"
  | finallyWord => "FINALLY"
  | throwWord => "THROW"
  | switchWord => "SWITCH"
  | caseWord => "CASE"
  | defaultWord => "DEFAULT"
  | className => "CLASS_NAME"
  | extendsWord => "EXTENDS"
  | constructorWord => "CONSTRUCTOR"
  | thisWord => "THIS"
  | staticWord => "STATIC"
  | privateWord => "PRIVATE"
  | publicWord => "PUBLIC"
  | protectedWord => "PROTECTED"
  | importWord => "IMPORT"
  | exportWord => "EXPORT"
  | async => "ASYNC"
  | await => "AWAIT"
  | yield => "YIELD"
  | generator => "GENERATOR"
  | array => "ARRAY"
  | object => "OBJECT"
  | stringType => "STRING_TYPE"
  | numberType => "NUMBER_TYPE"
  | booleanType => "BOOLEAN_TYPE"
  | arrayLiteral => "ARRAY_LITERAL"
  | objectLiteral => "OBJECT_LITERAL"
  | document => "DOCUMENT"
  | element => "ELEMENT"
  | selector => "SELECTOR"
  | selectAll => "SELECT_ALL"
  | create => "CREATE"
  | append => "APPEND"
  | remove => "REMOVE"
  | replace => "REPLACE"
  | listen => "LISTEN"
  | fetch => "FETCH"
  | load => "LOAD"
  | click => "CLICK"
  | change => "CHANGE"
  | style => "STYLE"
  | id => "ID"
  | content => "CONTENT"
  | value => "VALUE"
  | httpGet => "HTTP_GET"
  | httpPost => "HTTP_POST"
  | httpPut => "HTTP_PUT"
  | httpDelete => "HTTP_DELETE"
  | json => "JSON"
  | form => "FORM"
  | input => "INPUT"

def ofSpelling? (word : String) : Option Reserved :=
  all.find? (·.spelling == word)

end Reserved

end MinangScript

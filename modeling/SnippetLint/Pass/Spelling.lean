import SnippetLint.Diagnostic
import SnippetLint.Source.Mask
import SnippetLint.Text.Identifier

/-! Misspelt keywords. A variant can be a name of somebody's own, so each is only a warning. -/
namespace SnippetLint
open Text

structure Spelling where
  word : String
  /-- Known misspellings. -/
  variants : List String
deriving DecidableEq, Repr

namespace Spelling

/-- Keywords and common globals of JavaScript. -/
def javascript : List Spelling := [
  ⟨"function", ["functon", "funtion", "funciton", "functoin"]⟩,
  ⟨"return", ["retrn", "retrun", "reutrn", "rteurn"]⟩,
  ⟨"const", ["cosnt", "cnst", "conts"]⟩,
  ⟨"let", ["lte", "elt"]⟩,
  ⟨"var", ["vra", "vaar"]⟩,
  ⟨"if", ["fi", "ig"]⟩,
  ⟨"else", ["esle", "eles"]⟩,
  ⟨"for", ["fro", "ofr"]⟩,
  ⟨"while", ["whiel", "whlie", "wihle"]⟩,
  ⟨"switch", ["swtich", "siwtch", "swithc"]⟩,
  ⟨"case", ["caes", "csae"]⟩,
  ⟨"break", ["braek", "brak", "breka"]⟩,
  ⟨"continue", ["contniue", "contiue", "contineu"]⟩,
  ⟨"console", ["consoel", "consle", "concole"]⟩,
  ⟨"log", ["lg", "lgo"]⟩]

/-- Declaration keywords and primitive types of TypeScript. -/
def typescript : List Spelling := [
  ⟨"interface", ["inteface", "interace", "interfce"]⟩,
  ⟨"type", ["tpye", "tyep"]⟩,
  ⟨"extends", ["extedns", "extneds", "extens"]⟩,
  ⟨"implements", ["implemnets", "implemets", "implments"]⟩,
  ⟨"class", ["calss", "clss"]⟩,
  ⟨"constructor", ["consturctor", "construtor", "constuctor"]⟩,
  ⟨"private", ["privte", "priavte"]⟩,
  ⟨"public", ["pubilc", "publc"]⟩,
  ⟨"protected", ["protceted", "proected", "proteted"]⟩,
  ⟨"readonly", ["readony", "raedonly", "readonyl"]⟩,
  ⟨"string", ["stirng", "strig", "strng"]⟩,
  ⟨"number", ["numbr", "numbre", "nubmer"]⟩,
  ⟨"boolean", ["boolaen", "booean", "bolean"]⟩,
  ⟨"undefined", ["undefind", "udnefined", "undefned"]⟩,
  ⟨"null", ["nul", "nll"]⟩]

/-- Keywords, directives and library names of C and C++. -/
def cpp : List Spelling := [
  ⟨"include", ["incldue", "inlcude", "incude"]⟩,
  ⟨"iostream", ["iosteam", "iostram", "iotsream"]⟩,
  ⟨"namespace", ["namepsace", "namesapce", "namespacce"]⟩,
  ⟨"using", ["usign", "ussing", "usng"]⟩,
  ⟨"std", ["sdt", "stdd"]⟩,
  ⟨"cout", ["cuot", "cotu"]⟩,
  ⟨"cin", ["cni", "icn", "ciin"]⟩,
  ⟨"endl", ["edl", "enld", "endll"]⟩,
  ⟨"return", ["retrn", "retrun", "reutrn", "rteurn"]⟩,
  ⟨"class", ["calss", "clss", "clas"]⟩,
  ⟨"struct", ["strcut", "stuct", "strct"]⟩,
  ⟨"public", ["pubilc", "publc", "pubic"]⟩,
  ⟨"private", ["privte", "priavte", "privat"]⟩,
  ⟨"protected", ["protceted", "proected", "proteted"]⟩,
  ⟨"virtual", ["virtal", "vitrual", "virtaul"]⟩,
  ⟨"static", ["statci", "statc", "sttaic"]⟩,
  ⟨"const", ["cosnt", "cnst", "conts"]⟩,
  ⟨"void", ["viod", "vodi", "voi"]⟩,
  ⟨"int", ["itn", "nit", "intt"]⟩,
  ⟨"char", ["cahr", "chr", "charr"]⟩,
  ⟨"float", ["flota", "flot", "floatt"]⟩,
  ⟨"double", ["duoble", "doule", "doubel"]⟩,
  ⟨"bool", ["boool", "boo", "booll"]⟩,
  ⟨"true", ["treu", "ture", "tru"]⟩,
  ⟨"false", ["fasle", "flase", "fals"]⟩,
  ⟨"if", ["fi", "ig", "iff"]⟩,
  ⟨"else", ["esle", "eles", "lese"]⟩,
  ⟨"for", ["fro", "ofr", "forr"]⟩,
  ⟨"while", ["whiel", "whlie", "wihle"]⟩,
  ⟨"switch", ["swtich", "siwtch", "swithc"]⟩,
  ⟨"case", ["caes", "csae", "casse"]⟩,
  ⟨"break", ["braek", "brak", "breka"]⟩,
  ⟨"continue", ["contniue", "contiue", "contineu"]⟩,
  ⟨"template", ["tempalte", "templte", "tempate"]⟩,
  ⟨"typename", ["tyepname", "typenam", "typenme"]⟩]

def warning (line : Nat) (s : Spelling) (variant : String) (w : Word) : Diagnostic :=
  .warning ⟨line, w.column⟩
    ("Possible typo: '" ++ variant ++ "' might be '" ++ s.word ++ "'")

/-- Rule by rule, then variant by variant, then left to right. -/
def typosOfLine (table : List Spelling) (line : Nat) (ws : List Word) : List Diagnostic :=
  table.flatMap fun s => s.variants.flatMap fun v =>
    (ws.filter (·.text == v)).map (s.warning line v)

/-- Line by line in the masked text. -/
def typos (table : List Spelling) (code : List Char) : List Diagnostic :=
  (numbered (Source.mask code)).flatMap fun (line, n) => typosOfLine table n (words line)

end Spelling
end SnippetLint

import Micro86.GotoProgram.Compile
import Micro86.Proofs.Program.Names
import Micro86.Proofs.Text.Line
import Micro86.Proofs.Text.Numeral

/-!
Reading the text of a program of labelled statements. A line is taken by its words: the words
that end in a colon are labels, the others have the form of a declaration or a statement. A
line whose names are plain is read back from its words.
-/
namespace Micro86.GotoProgram

/-! ### The reader -/

/-- The word without the character that ends it. -/
def before? (mark : Char) (word : String) : Option String :=
  if word.toList.getLast? = some mark then some (String.ofList word.toList.dropLast) else none

/-- The value of a sign and digits. -/
def numeral (word : String) : Int :=
  Text.withSign (Text.splitSign word.toList).1
    (Text.decimalValue (Text.splitSign word.toList).2)

/-- A number as it is written: in decimal, without zeros in front. -/
def number? (word : String) : Option Int :=
  if Text.decimal (numeral word) = word then some (numeral word) else none

def Expr.read (word : String) : Expr := (number? word).elim (.cell word) .number

def Operator.read (word : String) : Option Operator :=
  [("+=",Operator.add),("-=",.sub),("*=",.mul),("/=",.div),("%=",.mod)].lookup word

def Test.read (word : String) : Option Test :=
  [("==",Test.eq),("!=",.ne),("<",.lt),("<=",.le),(">",.gt),(">=",.ge)].lookup word

/-- The forms of statements, by the number of their words. -/
def Statement.read : List String → Option Statement
  | [a] =>
    if a = "exit(0);" then some (.exit 0)
    else if a = "exit(1);" then some (.exit 1)
    else none
  | [a,b] => if a = "goto" then (before? ';' b).map .jump else none
  | [a,b,c] =>
    if [a,b,c] = ["cin",">>","_byte;"] then some .readByte
    else if a = "_acc" then do
      let e ← (before? ';' c).map Expr.read
      if b = "=" then some (.load e) else (Operator.read b).map (.compute · e)
    else if [b,c] = ["=","_acc;"] then some (.store a)
    else none
  | [a,b,c,d] =>
    if [a,b,c,d] = ["_acc","=","(int)","_byte;"] then some .takeByte
    else if [a,b,c,d] = ["cout","<<","(char)","_acc;"] then some .writeChar
    else none
  | [a,b,c,d,e] =>
    if [a,b,c,d] = ["_cmp","=","_acc","-"] then (before? ';' e).map (.compare ∘ Expr.read)
    else none
  | [a,b,c,d,e,f] =>
    if [a,b,d,e] = ["if","(_cmp","0)","goto"] then do
      return .branch (← Test.read c) (← before? ';' f)
    else none
  | _ => none

/-- What a line of the code says. -/
inductive Line
  | declaration (name : String) (value : Int)
  | statement (labels : List String) (s : Statement)
  deriving DecidableEq, Repr

/-- The labels at the front, and the other words. -/
def splitLabels : List String → List String × List String
  | [] => ([],[])
  | word :: rest =>
    match before? ':' word with
    | some name => (name :: (splitLabels rest).1,(splitLabels rest).2)
    | none => ([],word :: rest)

def declaration? : List String → Option Line
  | [_,name,sign,word] =>
    if sign = "=" then do return .declaration name (← number? (← before? ';' word)) else none
  | _ => none

def Line.read (ws : List String) : Option Line :=
  if ws.head? = some "int" then declaration? ws
  else (Statement.read (splitLabels ws).2).map (.statement (splitLabels ws).1)

/-- Operations up to the exit behind them. A byte that is read is taken by the same
operation. -/
def operations? : List Line → Option (List Operation × List String)
  | [.statement labels (.exit 1)] => some ([],labels)
  | .statement labels .readByte :: .statement [] .takeByte :: rest =>
    (operations? rest).map fun r => (⟨labels,[.readByte,.takeByte]⟩ :: r.1,r.2)
  | .statement labels s :: rest =>
    (operations? rest).map fun r => (⟨labels,[s]⟩ :: r.1,r.2)
  | _ => none

/-- Declarations, and then operations. -/
def program? : List Line → Option GotoProgram
  | .declaration name value :: rest =>
    (program? rest).map fun g => { g with declarations := (name,value) :: g.declarations }
  | ls => (operations? ls).map fun r => ⟨[],r.1,r.2⟩

/-- The words of the lines in front of the declarations. -/
def heading : List (List String) := [
  ["#include","<iostream>"],["#include","<cstdlib>"],["using","namespace","std;"],
  ["int","main()","\x7b"],["int","_acc","=","0,","_cmp;"],["char","_byte;"],
  ["cin",">>","noskipws;"]]

def wordsOf (line : String) : List String := (Text.words line.toList).map String.ofList

/-- Whether a line is neither blank nor a comment, by its words. -/
def isCode (ws : List String) : Bool := ws.head?.any (· ≠ "//")

/-- The words of the lines that are code. -/
def codeLines (text : String) : List (List String) :=
  ((Text.lines text.toList).map (wordsOf ∘ String.ofList)).filter isCode

/-- The program that a text is. -/
def read (text : String) : Option GotoProgram :=
  let ls := codeLines text
  if ls.take heading.length = heading ∧ ls.getLast? = some ["\x7d"] then
    (ls.drop heading.length).dropLast.mapM Line.read >>= program?
  else none

/-! ### Names and numbers -/

section
variable {name : String}

theorem before?_of_plain (h : Plain name) {mark : Char} (hmark : isNameChar mark = false) :
    before? mark name = none := by
  unfold before?
  rw [if_neg]
  intro hlast
  have hchar := h.chars mark (List.mem_of_getLast? hlast)
  simp [hmark] at hchar

/-- A number starts with a digit or a sign. -/
theorem number?_of_plain (h : Plain name) : number? name = none := by
  unfold number?
  rw [if_neg]
  intro hdecimal
  obtain ⟨c,rest,hname,hfirst⟩ := h.first
  have hlist := congrArg String.toList hdecimal
  rw [hname,Text.toList_decimal] at hlist
  have hdigit : c = '-' ∨ Text.isDecimalDigit c = true := by
    split at hlist
    · left
      simpa using (List.cons.inj hlist).1.symm
    · right
      rw [List.nil_append] at hlist
      exact Text.isDecimalDigit_of_mem_toDigits (hlist ▸ List.mem_cons_self)
  obtain rfl | hdigit := hdigit
  · simp at hfirst
  · simp only [Bool.or_eq_true,decide_eq_true_eq] at hfirst
    obtain halpha | rfl := hfirst
    · have hrange := toNat_of_isAlpha halpha
      have hval : 48 ≤ c.toNat ∧ c.toNat ≤ 57 := by
        simpa [Text.isDecimalDigit,Char.le_def,UInt32.le_iff_toNat_le] using hdigit
      omega
    · simp [Text.isDecimalDigit] at hdigit

end

/-- A plain name that means nothing else in the text. -/
def Fresh (name : String) : Prop :=
  Plain name ∧ name ∉ keywords ∧ name ∉ generatedNames

def Expr.Named : Expr → Prop
  | cell name => Fresh name
  | number _ => True

/-- The names in a statement can be read, and an exit is one of the two. -/
def Statement.Named : Statement → Prop
  | exit code => code = 0 ∨ code = 1
  | load e | compute _ e | compare e => e.Named
  | store name => Fresh name
  | jump label | branch _ label => Plain label
  | readByte | takeByte | writeChar => True

/-! ### Lines as words -/

def Statement.words : Statement → List String
  | exit code => [s!"exit({code});"]
  | load e => ["_acc","=",e.render ++ ";"]
  | store name => [name,"=","_acc;"]
  | compute op e => ["_acc",op.render ++ "=",e.render ++ ";"]
  | compare e => ["_cmp","=","_acc","-",e.render ++ ";"]
  | jump label => ["goto",label ++ ";"]
  | branch test label => ["if","(_cmp",test.render,"0)","goto",label ++ ";"]
  | readByte => ["cin",">>","_byte;"]
  | takeByte => ["_acc","=","(int)","_byte;"]
  | writeChar => ["cout","<<","(char)","_acc;"]

theorem Statement.render_eq_unwords (s : Statement) : s.render = Text.unwords s.words := by
  apply String.toList_inj.mp
  unfold Statement.render
  cases s <;> simp [Statement.words,Text.unwords,Text.toString_string,accumulator,comparison,
    byteBuffer,List.intercalate_cons_cons]

theorem labelled_unwords (labels : List String) {ws : List String} (hws : ws ≠ []) :
    labelled labels (Text.unwords ws) = Text.unwords (labels.map (· ++ ":") ++ ws) := by
  apply String.toList_inj.mp
  obtain ⟨first,rest,rfl⟩ := List.exists_cons_of_ne_nil hws
  induction labels with
  | nil => simp [labelled]
  | cons label labels ih =>
    have hcons : (labelled (label :: labels) (Text.unwords (first :: rest))).toList =
        label.toList ++ ':' :: ' ' :: (labelled labels (Text.unwords (first :: rest))).toList := by
      simp [labelled,String.toList_join]
    rw [hcons,ih]
    cases labels <;> simp [Text.unwords,List.intercalate_cons_cons]

theorem before?_append {mark : Char} {tail : String} (htail : tail.toList = [mark])
    (word : String) : before? mark (word ++ tail) = some word := by
  simp [before?,htail]

theorem before?_semicolon (word : String) : before? ';' (word ++ ";") = some word :=
  before?_append rfl word

theorem before?_colon (word : String) : before? ':' (word ++ ":") = some word :=
  before?_append rfl word

theorem append_colon_ne {word : String} (h : before? ':' word = none) (label : String) :
    label ++ ":" ≠ word := by
  intro heq
  have hsome := before?_colon label
  rw [heq,h] at hsome
  simp at hsome

theorem number?_decimal (n : Int) : number? (Text.decimal n) = some n := by
  have hnumeral : numeral (Text.decimal n) = n := Text.withSign_splitSign_decimal n
  simp [number?,hnumeral]

theorem Expr.read_render {e : Expr} (h : e.Named) : Expr.read e.render = e := by
  cases e with
  | cell name => simp [Expr.read,Expr.render,number?_of_plain h.1]
  | number n => simp [Expr.read,Expr.render,number?_decimal]

theorem Operator.read_render (op : Operator) : Operator.read (op.render ++ "=") = some op := by
  cases op <;> decide

theorem Operator.render_ne (op : Operator) : op.render ++ "=" ≠ "=" := by
  cases op <;> decide

theorem Test.read_render (test : Test) : Test.read test.render = some test := by
  cases test <;> decide

/-- A statement is read from its words. -/
theorem Statement.read_words {s : Statement} (h : s.Named) : Statement.read s.words = some s := by
  cases s with
  | exit code =>
    obtain rfl | rfl := h <;> rfl
  | load e => simp [Statement.read,Statement.words,before?_semicolon,Expr.read_render h]
  | store name =>
    have hacc : name ≠ "_acc" := by
      rintro rfl
      exact h.2.2 (by decide)
    simp [Statement.read,Statement.words,hacc]
  | compute op e =>
    simp [Statement.read,Statement.words,before?_semicolon,Expr.read_render h,op.read_render,
      op.render_ne]
  | compare e => simp [Statement.read,Statement.words,before?_semicolon,Expr.read_render h]
  | jump label => simp [Statement.read,Statement.words,before?_semicolon]
  | branch test label => simp [Statement.read,Statement.words,before?_semicolon,test.read_render]
  | readByte | takeByte | writeChar => rfl

/-! ### Whole lines -/

def Line.render : Line → String
  | declaration name value => s!"int {name} = {Text.decimal value};"
  | statement labels s => labelled labels s.render

def Line.words : Line → List String
  | declaration name value => ["int",name,"=",Text.decimal value ++ ";"]
  | statement labels s => labels.map (· ++ ":") ++ s.words

def Line.Named : Line → Prop
  | declaration name _ => Plain name
  | statement labels s => (∀ label ∈ labels, Plain label) ∧ s.Named

theorem Line.render_eq_unwords (l : Line) : l.render = Text.unwords l.words := by
  cases l with
  | declaration name value =>
    apply String.toList_inj.mp
    simp [Line.render,Line.words,Text.unwords,Text.toString_string,List.intercalate_cons_cons]
  | statement labels s =>
    have hne : s.words ≠ [] := by cases s <;> simp [Statement.words]
    rw [Line.render,s.render_eq_unwords,labelled_unwords labels hne]
    rfl

theorem splitLabels_append {labels ws : List String}
    (h : ∀ w ∈ ws.head?, before? ':' w = none) :
    splitLabels (labels.map (· ++ ":") ++ ws) = (labels,ws) := by
  induction labels with
  | nil =>
    cases ws with
    | nil => rfl
    | cons w ws => simp [splitLabels,h w rfl]
  | cons label labels ih => simp [splitLabels,before?_colon,ih]

/-- The first word of a statement is no label and opens neither a declaration nor a comment. -/
theorem Statement.head_words {s : Statement} (h : s.Named) :
    ∃ w rest, s.words = w :: rest ∧ before? ':' w = none ∧ w ≠ "int" ∧ w ≠ "//" := by
  cases s with
  | exit code =>
    obtain rfl | rfl := h
    all_goals exact ⟨_,_,rfl,by decide,by decide,by decide⟩
  | store name =>
    refine ⟨name,_,rfl,before?_of_plain h.1 (by decide),?_,?_⟩
    · rintro rfl
      exact h.2.1 (by decide)
    · exact h.1.ne_of_mem (c := '/') (by decide) (by decide)
  | load | compute | compare | jump | branch | readByte | takeByte | writeChar =>
    exact ⟨_,_,rfl,by decide,by decide,by decide⟩

/-- A line is read from its words. -/
theorem Line.read_words {l : Line} (h : l.Named) : Line.read l.words = some l := by
  cases l with
  | declaration name value =>
    simp [Line.read,declaration?,Line.words,before?_semicolon,number?_decimal]
  | statement labels s =>
    obtain ⟨w,rest,hwords,hcolon,hint,-⟩ := Statement.head_words h.2
    have hsplit : splitLabels (labels.map (· ++ ":") ++ s.words) = (labels,s.words) := by
      apply splitLabels_append
      simpa [hwords] using hcolon
    have hhead : (labels.map (· ++ ":") ++ s.words).head? ≠ some "int" := by
      cases labels with
      | nil => simpa [hwords] using hint
      | cons label labels =>
        have hne : label ++ ":" ≠ "int" := append_colon_ne (by decide) label
        simpa using hne
    rw [Line.words,Line.read,if_neg hhead,hsplit,Statement.read_words h.2]
    rfl

/-- No line of the code is taken for a comment. -/
theorem Line.isCode_words {l : Line} (h : l.Named) : isCode l.words = true := by
  cases l with
  | declaration name value => rfl
  | statement labels s =>
    cases labels with
    | nil =>
      obtain ⟨w,rest,hwords,-,-,hcomment⟩ := Statement.head_words h.2
      simp [isCode,Line.words,hwords,hcomment]
    | cons label labels =>
      have hne : label ++ ":" ≠ "//" := append_colon_ne (by decide) label
      simp [isCode,Line.words,hne]

end Micro86.GotoProgram
